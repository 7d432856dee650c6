import MiqOSoft.Common.Strings

/-!
The FAT driver of the boot loader's second stage, `fat.c`.

* `Partition`: the disk as the driver sees it, the contents of its sectors and which of its
  requests fail.
* `FatState`: `g_Data` and the other variables of the driver, with a trace of the requests it
  makes and of its lookups in the FAT, newest first.
* `fatInitialize`, `fatOpenEntry`, `fatNextCluster`, `fatRead`, `fatClose`, `fatFindFile`,
  `fatOpen`: the functions of `fat.c` under their names.

A search of a directory need not end: `fuel` bounds the entries it looks at, and a search that
uses it up is `endless`.
-/

namespace MiqOSoft

open Machine

/-- `SECTOR_SIZE`. -/
def SECTOR_SIZE : Word := 512#32

/-- `FAT_CACHE_SIZE`. -/
def FAT_CACHE_SIZE : ℕ := 5

/-- `MAX_FILE_HANDLES`. -/
def MAX_FILE_HANDLES : ℕ := 10

/-- `MAX_PATH_SIZE`. -/
def MAX_PATH_SIZE : ℕ := 256

/-- `FAT_ATTRIBUTE_DIRECTORY`. -/
def FAT_ATTRIBUTE_DIRECTORY : Byte := 0x10#8

/-- The macro `min`, on unsigned words. -/
def wordMin (a b : Word) : Word := if a < b then a else b

lemma toNat_wordMin (a b : Word) : (wordMin a b).toNat = min a.toNat b.toNat := by
  rw [wordMin]
  split <;> rename_i h <;> rw [BitVec.lt_def] at h <;> omega

/-! ### The structures of `fat.c` and `fat.h` -/

/-- A partition: the bytes of the sector at an address relative to its start, and whether
`DISK_ReadSectors` gives up on a request, in view of the requests made before.  The driver
never writes. -/
structure Partition where
  sector : Word → ℕ → Byte
  fails : List (Word × ℕ) → Word → ℕ → Bool

/-- The fields of `FAT_BootSector` that the driver looks at. -/
structure FatBootSector where
  bytesPerSector : BitVec 16
  sectorsPerCluster : Byte
  reservedSectors : BitVec 16
  fatCount : Byte
  dirEntryCount : BitVec 16
  totalSectors : BitVec 16
  sectorsPerFat : BitVec 16
  largeSectorCount : Word
  ebr32SectorsPerFat : Word
  ebr32RootDirectoryCluster : Word

/-- The `FAT_BootSector` of the bytes of a sector. -/
def fatBootSector (b : ℕ → Byte) : FatBootSector where
  bytesPerSector := halfAt b 11
  sectorsPerCluster := b 13
  reservedSectors := halfAt b 14
  fatCount := b 16
  dirEntryCount := halfAt b 17
  totalSectors := halfAt b 19
  sectorsPerFat := halfAt b 22
  largeSectorCount := wordAt b 32
  ebr32SectorsPerFat := wordAt b 36
  ebr32RootDirectoryCluster := wordAt b 44

/-- The fields of `FAT_DirectoryEntry` that the driver looks at. -/
@[ext]
structure FatDirectoryEntry where
  name : List Byte
  attributes : Byte
  firstClusterHigh : BitVec 16
  firstClusterLow : BitVec 16
  size : Word
  deriving DecidableEq

/-- The `FAT_DirectoryEntry` of the bytes at `b`. -/
def fatDirectoryEntry (b : ℕ → Byte) : FatDirectoryEntry where
  name := (List.range 11).map b
  attributes := b 11
  firstClusterHigh := halfAt b 20
  firstClusterLow := halfAt b 26
  size := wordAt b 28

/-- `FAT_FileData`, with the fields of its `FAT_File`. -/
@[ext]
structure FatFileData where
  buffer : ℕ → Byte
  isDirectory : Bool
  position : Word
  size : Word
  opened : Bool
  firstCluster : Word
  currentCluster : Word
  currentSectorInCluster : Word

/-- A `FAT_File` that the driver has handed out: `ROOT_DIRECTORY_HANDLE`, or the index of a
slot of `OpenedFiles`. -/
inductive FatHandle
  | root
  | slot (i : Fin MAX_FILE_HANDLES)
  deriving DecidableEq

/-- The values of `g_FatType`. -/
inductive FatType
  | fat12
  | fat16
  | fat32
  deriving DecidableEq

/-- The state of the driver.  `requests` holds the sector and the number of sectors of every
read, `lookups` the cluster of every lookup in the FAT with the position of the window that
served it. -/
@[ext]
structure FatState where
  bootSector : FatBootSector
  rootDirectory : FatFileData
  openedFiles : Fin MAX_FILE_HANDLES → FatFileData
  fatCache : ℕ → Byte
  fatCachePosition : Word
  dataSectionLba : Word
  fatType : FatType
  totalSectors : Word
  sectorsPerFat : Word
  requests : List (Word × ℕ)
  lookups : List (Word × Word)

namespace FatState

/-- The `FAT_FileData` of a handle. -/
def file (s : FatState) : FatHandle → FatFileData
  | .root => s.rootDirectory
  | .slot i => s.openedFiles i

/-- Storing the `FAT_FileData` of a handle. -/
def setFile (s : FatState) : FatHandle → FatFileData → FatState
  | .root, fd => { s with rootDirectory := fd }
  | .slot i, fd => { s with openedFiles := Function.update s.openedFiles i fd }

/-- The byte at offset `k` of `FatCache`.  `FatCachePosition` follows it in `FAT_Data`. -/
def cacheByte (s : FatState) (k : ℕ) : Byte :=
  if k < FAT_CACHE_SIZE * 512 then s.fatCache k
  else wordByte s.fatCachePosition (k - FAT_CACHE_SIZE * 512)

end FatState

/-! ### Reading sectors -/

variable (disk : Partition)

/-- `Partition_ReadSectors`: the bytes read, or `none` when the disk gives up. -/
def partitionReadSectors (lba : Word) (sectors : ℕ) (s : FatState) :
    Option (ℕ → Byte) × FatState :=
  (if disk.fails s.requests lba sectors then none
    else some fun k => disk.sector (lba + BitVec.ofNat 32 (k / 512)) (k % 512),
   { s with requests := (lba, sectors) :: s.requests })

/-- A read of one sector into the `Buffer` of a file. -/
def fatReadBuffer (file : FatHandle) (lba : Word) (s : FatState) : Bool × FatState :=
  match partitionReadSectors disk lba 1 s with
  | (none, s) => (false, s)
  | (some bytes, s) => (true, s.setFile file { s.file file with buffer := bytes })

/-- `FAT_ReadBootSector`. -/
def fatReadBootSector (s : FatState) : Bool × FatState :=
  match partitionReadSectors disk 0#32 1 s with
  | (none, s) => (false, s)
  | (some bytes, s) => (true, { s with bootSector := fatBootSector bytes })

/-- `FAT_ReadFat`. -/
def fatReadFat (lbaIndex : Word) (s : FatState) : Bool × FatState :=
  match partitionReadSectors disk (s.bootSector.reservedSectors.setWidth 32 + lbaIndex)
      FAT_CACHE_SIZE s with
  | (none, s) => (false, s)
  | (some bytes, s) => (true, { s with fatCache := bytes })

/-! ### `FAT_Initialize` -/

/-- `FAT_ClusterToLba`. -/
def fatClusterToLba (s : FatState) (cluster : Word) : Word :=
  s.dataSectionLba + (cluster - 2#32) * s.bootSector.sectorsPerCluster.setWidth 32

/-- `FAT_Detect`, for a number of sectors in a cluster other than zero. -/
def fatDetect (s : FatState) : FatState :=
  let dataClusters :=
    (s.totalSectors - s.dataSectionLba) / s.bootSector.sectorsPerCluster.setWidth 32
  { s with fatType :=
      if dataClusters < 0xFF5#32 then .fat12
      else if s.bootSector.sectorsPerFat ≠ 0#16 then .fat16
      else .fat32 }

/-- The part of `FAT_Initialize` that calculates the layout of the volume and sets up the file of
the root directory, from the boot sector. -/
def fatLayout (s : FatState) : FatState :=
  let bs := s.bootSector
  let isFat32 := decide (bs.sectorsPerFat = 0#16)
  let sectorsPerFat :=
    if isFat32 then bs.ebr32SectorsPerFat else bs.sectorsPerFat.setWidth 32
  let fatEnd := bs.reservedSectors.setWidth 32 + sectorsPerFat * bs.fatCount.setWidth 32
  let rootDirSize := 32#32 * bs.dirEntryCount.setWidth 32
  let bytesPerSector := bs.bytesPerSector.setWidth 32
  let s := { s with
    fatCachePosition := 0xFFFFFFFF#32
    totalSectors :=
      if bs.totalSectors = 0#16 then bs.largeSectorCount else bs.totalSectors.setWidth 32
    sectorsPerFat
    dataSectionLba :=
      if isFat32 then fatEnd
      else fatEnd + (rootDirSize + bytesPerSector - 1#32) / bytesPerSector }
  let rootDirLba := if isFat32 then fatClusterToLba s bs.ebr32RootDirectoryCluster else fatEnd
  { s with
    rootDirectory := { s.rootDirectory with
      isDirectory := true
      position := 0#32
      size := rootDirSize
      opened := true
      firstCluster := rootDirLba
      currentCluster := rootDirLba
      currentSectorInCluster := 0#32 } }

/-- `FAT_Initialize`: its result, or `none` when a division by zero stops it. -/
def fatInitialize (s : FatState) : Option Bool × FatState :=
  match fatReadBootSector disk s with
  | (false, s) => (some false, s)
  | (true, s) =>
      if s.bootSector.sectorsPerFat ≠ 0#16 ∧ s.bootSector.bytesPerSector = 0#16 then (none, s)
      else
        match fatReadBuffer disk .root (fatLayout s).rootDirectory.firstCluster (fatLayout s) with
        | (false, s) => (some false, s)
        | (true, s) =>
            if s.bootSector.sectorsPerCluster = 0#8 then (none, s)
            else
              (some true, { fatDetect s with
                openedFiles := fun i => { s.openedFiles i with opened := false } })

/-! ### `FAT_OpenEntry` -/

/-- The first slot of `OpenedFiles` that is not opened. -/
def freeHandle (s : FatState) : Option (Fin MAX_FILE_HANDLES) :=
  (List.finRange MAX_FILE_HANDLES).find? fun i => !(s.openedFiles i).opened

/-- The `FAT_FileData` that `FAT_OpenEntry` sets up, before its first sector is read. -/
def FatDirectoryEntry.fileData (entry : FatDirectoryEntry) (fd : FatFileData) : FatFileData :=
  let firstCluster :=
    entry.firstClusterLow.setWidth 32 + entry.firstClusterHigh.setWidth 32 <<< 16
  { fd with
    isDirectory := entry.attributes &&& FAT_ATTRIBUTE_DIRECTORY ≠ 0#8
    position := 0#32
    size := entry.size
    firstCluster
    currentCluster := firstCluster
    currentSectorInCluster := 0#32 }

/-- `FAT_OpenEntry`; `none` is `NULL`. -/
def fatOpenEntry (entry : FatDirectoryEntry) (s : FatState) : Option FatHandle × FatState :=
  match freeHandle s with
  | none => (none, s)
  | some i =>
      let fd := entry.fileData (s.openedFiles i)
      let s := s.setFile (.slot i) fd
      match fatReadBuffer disk (.slot i) (fatClusterToLba s fd.currentCluster) s with
      | (false, s) => (none, s)
      | (true, s) =>
          (some (.slot i), s.setFile (.slot i) { s.openedFiles i with opened := true })

/-! ### `FAT_NextCluster` -/

/-- The byte offset of the entry of a cluster, in the arithmetic of `uint32_t`. -/
def fatIndex (t : FatType) (cluster : Word) : Word :=
  match t with
  | .fat12 => cluster * 3#32 / 2#32
  | .fat16 => cluster * 2#32
  | .fat32 => cluster * 4#32

/-- The value of the entry of a cluster, from the bytes at its place. -/
def fatEntryValue (t : FatType) (cluster : Word) (b : ℕ → Byte) : Word :=
  match t with
  | .fat12 =>
      let nextCluster : Word :=
        if cluster % 2#32 = 0#32 then (halfAt b 0).setWidth 32 &&& 0x0FFF#32
        else (halfAt b 0).setWidth 32 >>> 4
      if 0xFF8#32 ≤ nextCluster then nextCluster ||| 0xFFFFF000#32 else nextCluster
  | .fat16 =>
      let nextCluster : Word := (halfAt b 0).setWidth 32
      if 0xFFF8#32 ≤ nextCluster then nextCluster ||| 0xFFFF0000#32 else nextCluster
  | .fat32 => wordAt b 0

/-- Making sure that the cache holds the sector `fatIndexSector` of the FAT.  The result of the
read is not looked at. -/
def fatLoadCache (fatIndexSector : Word) (s : FatState) : FatState :=
  if fatIndexSector < s.fatCachePosition ∨
      s.fatCachePosition + BitVec.ofNat 32 FAT_CACHE_SIZE ≤ fatIndexSector then
    { (fatReadFat disk fatIndexSector s).2 with fatCachePosition := fatIndexSector }
  else s

/-- `FAT_NextCluster`. -/
def fatNextCluster (currentCluster : Word) (s : FatState) : Word × FatState :=
  let index := fatIndex s.fatType currentCluster
  let s := fatLoadCache disk (index / SECTOR_SIZE) s
  let offset := index - s.fatCachePosition * SECTOR_SIZE
  (fatEntryValue s.fatType currentCluster fun k => s.cacheByte (offset.toNat + k),
   { s with lookups := (currentCluster, s.fatCachePosition) :: s.lookups })

/-! ### `FAT_Read` -/

/-- The end of the chain, as `FAT_Read` tests for it. -/
def FAT_CHAIN_END : Word := 0xFFFFFFF8#32

/-- Moving an opened file on to its next sector: the part of `FAT_Read` that calculates the next
cluster and sector. -/
def fatAdvance (i : Fin MAX_FILE_HANDLES) (s : FatState) : FatState :=
  let fd := s.openedFiles i
  if s.bootSector.sectorsPerCluster.setWidth 32 ≤ fd.currentSectorInCluster + 1#32 then
    match fatNextCluster disk fd.currentCluster s with
    | (cluster, s) =>
        s.setFile (.slot i) { fd with currentCluster := cluster, currentSectorInCluster := 0#32 }
  else
    s.setFile (.slot i) { fd with currentSectorInCluster := fd.currentSectorInCluster + 1#32 }

/-- What `FAT_Read` does when the buffer is used up; `false` is its `break`. -/
def fatNextSector (file : FatHandle) (s : FatState) : Bool × FatState :=
  match file with
  | .root =>
      let lba := s.rootDirectory.currentCluster + 1#32
      fatReadBuffer disk .root lba (s.setFile .root { s.rootDirectory with currentCluster := lba })
  | .slot i =>
      let s := fatAdvance disk i s
      let fd := s.openedFiles i
      if FAT_CHAIN_END ≤ fd.currentCluster then
        (false, s.setFile (.slot i) { fd with size := fd.position })
      else
        fatReadBuffer disk (.slot i)
          (fatClusterToLba s fd.currentCluster + fd.currentSectorInCluster) s

namespace FatFileData

variable (fd : FatFileData)

/-- `leftInBuffer`: the bytes from the position to the end of the buffer. -/
def leftInBuffer : Word := SECTOR_SIZE - fd.position % SECTOR_SIZE

/-- The bytes that `memcpy` takes from the buffer. -/
def taken (take : Word) : List Byte :=
  (List.range take.toNat).map fun k => fd.buffer ((fd.position % SECTOR_SIZE).toNat + k)

/-- The file after `take` bytes are delivered. -/
def moved (take : Word) : FatFileData := { fd with position := fd.position + take }

/-- The number of bytes that `FAT_Read` asks for: it does not read past the end of the file. -/
def clamp (byteCount : Word) : Word :=
  if fd.isDirectory ∧ fd.size = 0#32 then byteCount
  else wordMin byteCount (fd.size - fd.position)

end FatFileData

/-- The loop of `FAT_Read`, for at most `fuel` turns: the bytes delivered. -/
def fatReadLoop (file : FatHandle) : ℕ → Word → FatState → List Byte × FatState
  | 0, _, s => ([], s)
  | fuel + 1, byteCount, s =>
      if byteCount = 0#32 then ([], s)
      else
        let fd := s.file file
        let take := wordMin byteCount fd.leftInBuffer
        let s := s.setFile file (fd.moved take)
        if fd.leftInBuffer = take then
          match fatNextSector disk file s with
          | (false, s) => (fd.taken take, s)
          | (true, s) =>
              match fatReadLoop file fuel (byteCount - take) s with
              | (rest, s) => (fd.taken take ++ rest, s)
        else
          match fatReadLoop file fuel (byteCount - take) s with
          | (rest, s) => (fd.taken take ++ rest, s)

/-- `FAT_Read`: the bytes delivered.  Every turn of the loop takes at least one byte, so the
number asked for bounds the turns. -/
def fatRead (file : FatHandle) (byteCount : Word) (s : FatState) : List Byte × FatState :=
  let byteCount := (s.file file).clamp byteCount
  fatReadLoop disk file byteCount.toNat byteCount s

/-- `FAT_ReadEntry`. -/
def fatReadEntry (file : FatHandle) (s : FatState) : Option FatDirectoryEntry × FatState :=
  match fatRead disk file 32#32 s with
  | (bytes, s) =>
      (if bytes.length = 32 then some (fatDirectoryEntry fun k => bytes.getD k 0#8) else none, s)

/-- `FAT_Close`. -/
def fatClose (file : FatHandle) (s : FatState) : FatState :=
  match file with
  | .root =>
      s.setFile .root { s.rootDirectory with
        position := 0#32
        currentCluster := s.rootDirectory.firstCluster }
  | .slot i => s.setFile (.slot i) { s.openedFiles i with opened := false }

/-! ### `FAT_FindFile` -/

/-- `toupper`. -/
def toupper (chr : Byte) : Byte :=
  if 0x61#8 ≤ chr ∧ chr ≤ 0x7A#8 then chr - 0x61#8 + 0x41#8 else chr

/-- `FAT_GetShortName`: the eleven characters that are compared. -/
def fatGetShortName (name : List Byte) : List Byte :=
  let ext := (name.idxOf? 0x2E#8).getD 11
  let base := (name.take (min 8 ext)).map toupper
  let extension := if ext ≠ 11 then ((name.drop (ext + 1)).take 3).map toupper else []
  base.rightpad 8 0x20#8 ++ extension.rightpad 3 0x20#8

/-- What becomes of a search. -/
inductive FindResult
  | found (entry : FatDirectoryEntry)
  | absent
  | endless
  | nullHandle
  deriving DecidableEq

/-- The loop of `FAT_FindFile`, for at most `fuel` entries. -/
def fatFindLoop (file : FatHandle) (shortName : List Byte) :
    ℕ → FatState → FindResult × FatState
  | 0, s => (.endless, s)
  | fuel + 1, s =>
      match fatReadEntry disk file s with
      | (none, s) => (.absent, s)
      | (some entry, s) =>
          if entry.name = shortName then (.found entry, s)
          else fatFindLoop file shortName fuel s

/-- `FAT_FindFile`.  A search through `NULL` has no meaning in C. -/
def fatFindFile (fuel : ℕ) (file : Option FatHandle) (name : List Byte) (s : FatState) :
    FindResult × FatState :=
  match file with
  | none => (.nullHandle, s)
  | some file => fatFindLoop disk file (fatGetShortName name) fuel s

/-! ### `FAT_Open` -/

/-- What becomes of a call of `FAT_Open`. -/
inductive OpenResult
  | handle (file : FatHandle)
  | null
  | endless
  | nullHandle
  deriving DecidableEq

/-- A search that `FAT_Open` makes: the name it passes, and the result. -/
structure FatSearch where
  name : List Byte
  result : FindResult
  deriving DecidableEq

/-- The characters of a path in front of its first `/`. -/
def firstComponent (path : List Byte) : List Byte := path.takeWhile fun c => decide (c ≠ 0x2F#8)

/-- The path behind its first component. -/
def restPath (path : List Byte) : List Byte := path.drop ((firstComponent path).length + 1)

/-- The bytes of `name` after `component` is copied to its front and a NUL is stored at
`terminator`.  The bytes from `MAX_PATH_SIZE` on are what lies behind it on the stack. -/
def nameBuffer (name : ℕ → Byte) (component : List Byte) (terminator : ℕ) : ℕ → Byte :=
  Function.update (fun k => if k < component.length then component.getD k 0#8 else name k)
    terminator 0#8

/-- The buffer `name` for the first component of a path.  The last component of all, which no
`/` follows, has its NUL one byte behind its end. -/
def componentBuffer (name : ℕ → Byte) (path : List Byte) : ℕ → Byte :=
  let len := (firstComponent path).length
  nameBuffer name (firstComponent path) (if 0x2F#8 ∈ path then len else len + 1)

/-- The string at the front of `name` for the first component of a path. -/
def passedName (name : ℕ → Byte) (path : List Byte) : List Byte :=
  textOf ((List.range ((firstComponent path).length + 2)).map (componentBuffer name path))

/-- The pointer that `FAT_Open` returns. -/
def OpenResult.ofPointer : Option FatHandle → OpenResult
  | some file => .handle file
  | none => .null

/-- `FAT_Close` of `current`, which a search has gone through. -/
def fatCloseCurrent (current : Option FatHandle) (s : FatState) : FatState :=
  match current with
  | some file => fatClose file s
  | none => s

/-- The loop of `FAT_Open`, for a path of at most `n` characters: its result and its searches. -/
def fatOpenLoop (fuel : ℕ) :
    ℕ → List Byte → (ℕ → Byte) → Option FatHandle → FatState →
      OpenResult × List FatSearch × FatState
  | 0, _, _, current, s => (.ofPointer current, [], s)
  | n + 1, path, name, current, s =>
      if path = [] then (.ofPointer current, [], s)
      else
        let isLast := decide (0x2F#8 ∉ path)
        let passed := passedName name path
        match fatFindFile disk fuel current passed s with
        | (.found entry, s) =>
            let s := fatCloseCurrent current s
            -- `entry.Attributes & FAT_ATTRIBUTE_DIRECTORY == 0` compares first
            let mask : Byte := if FAT_ATTRIBUTE_DIRECTORY = 0#8 then 1#8 else 0#8
            if !isLast && entry.attributes &&& mask ≠ 0#8 then
              (.null, [⟨passed, .found entry⟩], s)
            else
              match fatOpenEntry disk entry s with
              | (current, s) =>
                  match fatOpenLoop fuel n (restPath path) (componentBuffer name path) current s
                  with
                  | (result, searches, s) => (result, ⟨passed, .found entry⟩ :: searches, s)
        | (.absent, s) => (.null, [⟨passed, .absent⟩], fatCloseCurrent current s)
        | (.endless, s) => (.endless, [⟨passed, .endless⟩], s)
        | (.nullHandle, s) => (.nullHandle, [⟨passed, .nullHandle⟩], s)

/-- A path without one leading `/`. -/
def skipSlash (path : List Byte) : List Byte :=
  if path.head? = some 0x2F#8 then path.tail else path

/-- `FAT_Open`; `stack` is what lies in `name` before the call. -/
def fatOpen (fuel : ℕ) (stack : ℕ → Byte) (path : CString) (s : FatState) :
    OpenResult × List FatSearch × FatState :=
  let path := skipSlash path.chars
  fatOpenLoop disk fuel path.length path stack (some .root) s

end MiqOSoft
