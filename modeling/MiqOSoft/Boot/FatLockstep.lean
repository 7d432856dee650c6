import MiqOSoft.Boot.FatCache
import MiqOSoft.Boot.FatCalls
import MiqOSoft.Boot.FatNames

/-!
Two states of the FAT driver that a caller cannot tell apart.

* `Alike`: the two states agree on the layout of the volume, on which files are open, and on the
  open files.  They may differ in the cache and in what closed files have left behind.
* `InStep`: both of them also look up the FAT through a valid cache.
* `Faithful`: a lookup inside the FAT that is not misread.  While the lookups of both sides are
  faithful, every function of the driver gives the same result on both and keeps them in step
  (`nextSector_together`, `read_together`, `findFile_together`, `openLoop_together`).
-/

namespace MiqOSoft

open Machine

/-! ### The cache stays valid -/

section

variable {disk : Partition} {s : FatState}

lemma cacheValid_setFile (h : CacheValid disk s) (file : FatHandle) (fd : FatFileData) :
    CacheValid disk (s.setFile file fd) := by
  cases file <;> exact cacheValid_congr h rfl rfl rfl

lemma cacheValid_readBuffer (h : CacheValid disk s) (file : FatHandle) (lba : Word) :
    CacheValid disk (fatReadBuffer disk file lba s).2 := by
  obtain ⟨buffer, heq⟩ := fatReadBuffer_eq disk file lba s
  have hrequests : CacheValid disk { s with requests := (lba, 1) :: s.requests } :=
    cacheValid_congr h rfl rfl rfl
  rw [heq]
  exact cacheValid_setFile hrequests file { s.file file with buffer }

/-- The whole driver keeps the cache valid. -/
lemma cacheValid_kept (disk : Partition) : Kept disk (CacheValid disk) where
  setFile _ file fd h := cacheValid_setFile h file fd
  readBuffer _ file lba h := cacheValid_readBuffer h file lba
  nextCluster _ c h := cacheValid_next h c

end

/-! ### Faithful lookups -/

/-- A lookup, with the position of the window that served it, that returns what the disk holds:
the window can be read, and the entry does not run over its end. -/
def Faithful (disk : Partition) (s : FatState) (lookup : Word × Word) : Prop :=
  WindowReadable disk s lookup.2 ∧ ¬Overruns disk s lookup.2 lookup.1

/-- All of the lookups that the trace holds are faithful. -/
def AllFaithful (disk : Partition) (s : FatState) : Prop := ∀ l ∈ s.lookups, Faithful disk s l

section

variable {disk : Partition} {s t : FatState}

lemma overruns_congr (hboot : t.bootSector = s.bootSector) (htype : t.fatType = s.fatType)
    (position c : Word) : Overruns disk t position c ↔ Overruns disk s position c := by
  rw [Overruns, Overruns, fatByte_congr hboot, htype]

lemma faithful_congr (h : Continues s t) (l : Word × Word) :
    Faithful disk t l ↔ Faithful disk s l := by
  rw [Faithful, Faithful, windowReadable_congr h.bootSector,
    overruns_congr h.bootSector h.fatType]

/-- The lookups made so far are among those made in the end. -/
lemma AllFaithful.of_continues (h : Continues s t) (ht : AllFaithful disk t) :
    AllFaithful disk s :=
  fun l hl => (faithful_congr h l).mp (ht l (h.lookups.subset hl))

/-- A faithful lookup returns what the disk holds. -/
theorem toNat_next_of_faithful (h : CacheValid disk s) {c : Word}
    (hf : AllFaithful disk (fatNextCluster disk c s).2) :
    (fatNextCluster disk c s).1.toNat
      = s.fatType.extend (s.fatType.entry c.toNat fun k =>
          fatByte disk s ((fatIndex s.fatType c).toNat + k)) := by
  have hlast : Faithful disk s (c, (fatNextCluster disk c s).2.fatCachePosition) :=
    (faithful_congr (frame_nextCluster disk .root s c).toContinues _).mp
      (hf _ List.mem_cons_self)
  exact (fatNextCluster_value_iff h (cacheHolds_next h hlast.1)).mpr hlast.2

end

/-! ### States that agree -/

/-- The two states agree on the layout of the volume, on which files are open, and on the open
files. -/
structure Alike (s t : FatState) : Prop where
  bootSector : t.bootSector = s.bootSector
  dataSectionLba : t.dataSectionLba = s.dataSectionLba
  fatType : t.fatType = s.fatType
  sectorsPerFat : t.sectorsPerFat = s.sectorsPerFat
  opened : ∀ file, (t.file file).opened = (s.file file).opened
  files : ∀ file, IsOpen s file → t.file file = s.file file

/-- The two states agree, and the caches of both are valid. -/
structure InStep (disk : Partition) (s t : FatState) : Prop extends Alike s t where
  first : CacheValid disk s
  second : CacheValid disk t

/-- The two results agree, and the states they come with. -/
def Together {β : Type} (disk : Partition) (r r' : β × FatState) : Prop :=
  r'.1 = r.1 ∧ InStep disk r.2 r'.2

lemma Together.map {β γ : Type} {disk : Partition} {r r' : β × FatState}
    (h : Together disk r r') (f : β → γ) : Together disk (f r.1, r.2) (f r'.1, r'.2) :=
  ⟨congrArg f h.1, h.2⟩

section

variable {disk : Partition} {s t s' t' : FatState} {file : FatHandle}

/-- What leaves the files leaves the states alike. -/
lemma Alike.congr (h : Alike s t) (hs : Continues s s') (ht : Continues t t')
    (hsfile : ∀ file, s'.file file = s.file file) (htfile : ∀ file, t'.file file = t.file file) :
    Alike s' t' where
  bootSector := ht.bootSector.trans (h.bootSector.trans hs.bootSector.symm)
  dataSectionLba := ht.dataSectionLba.trans (h.dataSectionLba.trans hs.dataSectionLba.symm)
  fatType := ht.fatType.trans (h.fatType.trans hs.fatType.symm)
  sectorsPerFat := ht.sectorsPerFat.trans (h.sectorsPerFat.trans hs.sectorsPerFat.symm)
  opened file := by rw [hsfile, htfile, h.opened]
  files file hopen := by
    rw [IsOpen, hsfile] at hopen
    rw [hsfile, htfile, h.files file hopen]

/-- Storing a file on both sides: the same one if it is open. -/
lemma Alike.setFile {fd fd' : FatFileData} (h : Alike s t) (hopened : fd'.opened = fd.opened)
    (hfd : fd.opened = true → fd' = fd) : Alike (s.setFile file fd) (t.setFile file fd') := by
  refine ⟨?_, ?_, ?_, ?_, fun file' => ?_, fun file' hopen => ?_⟩
  · simpa using h.bootSector
  · simpa using h.dataSectionLba
  · simpa using h.fatType
  · simpa using h.sectorsPerFat
  · by_cases hfile : file' = file
    · rw [hfile, FatState.file_setFile_self, FatState.file_setFile_self, hopened]
    · rw [FatState.file_setFile_of_ne _ _ _ _ hfile, FatState.file_setFile_of_ne _ _ _ _ hfile,
        h.opened]
  · by_cases hfile : file' = file
    · rw [IsOpen, hfile, FatState.file_setFile_self] at hopen
      rw [hfile, FatState.file_setFile_self, FatState.file_setFile_self, hfd hopen]
    · rw [IsOpen, FatState.file_setFile_of_ne _ _ _ _ hfile] at hopen
      rw [FatState.file_setFile_of_ne _ _ _ _ hfile, FatState.file_setFile_of_ne _ _ _ _ hfile,
        h.files file' hopen]

lemma InStep.setFile {fd fd' : FatFileData} (h : InStep disk s t)
    (hopened : fd'.opened = fd.opened) (hfd : fd.opened = true → fd' = fd) :
    InStep disk (s.setFile file fd) (t.setFile file fd') :=
  ⟨h.toAlike.setFile hopened hfd, cacheValid_setFile h.first _ _, cacheValid_setFile h.second _ _⟩

/-- The same on both sides. -/
lemma InStep.setFile_same (h : InStep disk s t) (file : FatHandle) (fd : FatFileData) :
    InStep disk (s.setFile file fd) (t.setFile file fd) :=
  h.setFile rfl fun _ => rfl

lemma isOpen_of_frame (h : FrameOf file s s') (hopen : IsOpen s file) : IsOpen s' file :=
  h.opened.trans hopen

end

/-! ### Reading -/

section

variable {disk : Partition} {s t : FatState} {file : FatHandle}

/-- A lookup on both sides. -/
lemma nextCluster_together (h : InStep disk s t) {c : Word}
    (hs : AllFaithful disk (fatNextCluster disk c s).2)
    (ht : AllFaithful disk (fatNextCluster disk c t).2) :
    Together disk (fatNextCluster disk c s) (fatNextCluster disk c t) := by
  have hvalue : (fatNextCluster disk c t).1.toNat = (fatNextCluster disk c s).1.toNat := calc
    (fatNextCluster disk c t).1.toNat
        = t.fatType.extend (t.fatType.entry c.toNat fun k =>
            fatByte disk t ((fatIndex t.fatType c).toNat + k)) :=
      toNat_next_of_faithful h.second ht
    _ = s.fatType.extend (s.fatType.entry c.toNat fun k =>
          fatByte disk s ((fatIndex s.fatType c).toNat + k)) := by
      rw [h.fatType, fatByte_congr h.bootSector]
    _ = (fatNextCluster disk c s).1.toNat := (toNat_next_of_faithful h.first hs).symm
  refine ⟨BitVec.toNat_inj.mp hvalue, ?_, cacheValid_next h.first c, cacheValid_next h.second c⟩
  exact h.toAlike.congr (frame_nextCluster disk .root s c).toContinues
    (frame_nextCluster disk .root t c).toContinues (fun file => file_nextCluster disk file s c)
    (fun file => file_nextCluster disk file t c)

variable (hstatic : ∀ h, disk.fails h = disk.fails [])

include hstatic

/-- A sector is read into a file that the two sides have but for its buffer. -/
lemma readBuffer_together (h : InStep disk s t) {buffer : ℕ → Byte}
    (hfile : t.file file = { s.file file with buffer := buffer }) (lba : Word) :
    Together disk (fatReadBuffer disk file lba s) (fatReadBuffer disk file lba t) ∧
      ((fatReadBuffer disk file lba s).1 = true →
        (fatReadBuffer disk file lba t).2.file file
          = (fatReadBuffer disk file lba s).2.file file) := by
  have hfirst := cacheValid_readBuffer h.first file lba
  have hsecond := cacheValid_readBuffer h.second file lba
  have hrequests : Alike { s with requests := (lba, 1) :: s.requests }
      { t with requests := (lba, 1) :: t.requests } :=
    h.toAlike.congr ⟨rfl, rfl, rfl, rfl, List.suffix_rfl⟩ ⟨rfl, rfl, rfl, rfl, List.suffix_rfl⟩
      (fun file => by cases file <;> rfl) (fun file => by cases file <;> rfl)
  have hsame : disk.fails t.requests lba 1 = disk.fails s.requests lba 1 := by
    rw [hstatic t.requests, hstatic s.requests]
  cases hfails : disk.fails s.requests lba 1 with
  | true =>
      rw [fatReadBuffer_of_fails hfails] at hfirst ⊢
      rw [fatReadBuffer_of_fails (hsame.trans hfails)] at hsecond ⊢
      exact ⟨⟨rfl, hrequests, hfirst, hsecond⟩, fun hok => absurd hok Bool.false_ne_true⟩
  | false =>
      rw [fatReadBuffer_of_not_fails hfails] at hfirst ⊢
      rw [fatReadBuffer_of_not_fails (hsame.trans hfails)] at hsecond ⊢
      have hfd : { t.file file with buffer := disk.bytesAt lba }
          = { s.file file with buffer := disk.bytesAt lba } := by rw [hfile]
      refine ⟨⟨rfl, ?_, hfirst, hsecond⟩, fun _ => ?_⟩
      · exact hrequests.setFile (congrArg FatFileData.opened hfd) fun _ => hfd
      · rw [FatState.file_setFile_self, FatState.file_setFile_self, hfd]

lemma readBuffer_together_of_open (h : InStep disk s t) (hopen : IsOpen s file) (lba : Word) :
    Together disk (fatReadBuffer disk file lba s) (fatReadBuffer disk file lba t) :=
  have hfile : t.file file = { s.file file with buffer := (s.file file).buffer } :=
    h.files file hopen
  (readBuffer_together hstatic h hfile lba).1

omit hstatic in
/-- An open file moves on to its next sector on both sides. -/
lemma advance_together (h : InStep disk s t) {i : Fin MAX_FILE_HANDLES}
    (hopen : IsOpen s (.slot i)) (hs : AllFaithful disk (fatAdvance disk i s))
    (ht : AllFaithful disk (fatAdvance disk i t)) :
    InStep disk (fatAdvance disk i s) (fatAdvance disk i t) := by
  have hfd : t.openedFiles i = s.openedFiles i := h.files (.slot i) hopen
  rw [fatAdvance] at hs ⊢
  rw [fatAdvance, h.bootSector, hfd] at ht ⊢
  split_ifs at hs ht ⊢ with hlast
  · have hnext := nextCluster_together h (hs.of_continues (continues_setFile _ _ _))
      (ht.of_continues (continues_setFile _ _ _))
    dsimp only
    rw [hnext.1]
    exact hnext.2.setFile_same (.slot i) _
  · exact h.setFile_same (.slot i) _

/-- **Moving on to the next sector** of an open file. -/
theorem nextSector_together (h : InStep disk s t) (hopen : IsOpen s file)
    (hs : AllFaithful disk (fatNextSector disk file s).2)
    (ht : AllFaithful disk (fatNextSector disk file t).2) :
    Together disk (fatNextSector disk file s) (fatNextSector disk file t) := by
  have hfile := h.files file hopen
  cases file with
  | root =>
      have hroot : t.rootDirectory = s.rootDirectory := hfile
      rw [fatNextSector, fatNextSector, hroot]
      have hmove : InStep disk
          (s.setFile .root { s.rootDirectory with
            currentCluster := s.rootDirectory.currentCluster + 1#32 })
          (t.setFile .root { s.rootDirectory with
            currentCluster := s.rootDirectory.currentCluster + 1#32 }) :=
        h.setFile_same .root _
      exact readBuffer_together_of_open hstatic hmove (show IsOpen _ .root from hopen) _
  | slot i =>
      have hadvance : InStep disk (fatAdvance disk i s) (fatAdvance disk i t) :=
        advance_together h hopen (hs.of_continues continues_advance_nextSector)
          (ht.of_continues continues_advance_nextSector)
      have hopen' := isOpen_of_frame (frame_advance disk s i) hopen
      have hfd : (fatAdvance disk i t).openedFiles i = (fatAdvance disk i s).openedFiles i :=
        hadvance.files (.slot i) hopen'
      by_cases hend : FAT_CHAIN_END ≤ ((fatAdvance disk i s).openedFiles i).currentCluster
      · rw [fatNextSector_end hend, fatNextSector_end (by rwa [hfd]), hfd]
        exact ⟨rfl, hadvance.setFile_same (.slot i) _⟩
      · rw [fatNextSector_slot hend, fatNextSector_slot (by rwa [hfd]), hfd, fatClusterToLba,
          fatClusterToLba, hadvance.dataSectionLba, hadvance.bootSector]
        exact readBuffer_together_of_open hstatic hadvance hopen' _

/-- **Reading** an open file delivers the same bytes. -/
theorem readLoop_together (fuel : ℕ) (byteCount : Word) (h : InStep disk s t)
    (hopen : IsOpen s file) (hs : AllFaithful disk (fatReadLoop disk file fuel byteCount s).2)
    (ht : AllFaithful disk (fatReadLoop disk file fuel byteCount t).2) :
    Together disk (fatReadLoop disk file fuel byteCount s)
      (fatReadLoop disk file fuel byteCount t) := by
  induction fuel generalizing byteCount s t with
  | zero => exact ⟨rfl, h⟩
  | succ fuel ih =>
      by_cases hzero : byteCount = 0#32
      · rw [hzero, fatReadLoop_zero, fatReadLoop_zero]
        exact ⟨rfl, h⟩
      have hfile := h.files file hopen
      have hmove : ∀ take, InStep disk (s.setFile file ((s.file file).moved take))
          (t.setFile file ((s.file file).moved take)) := fun take => h.setFile_same file _
      have hopen' : ∀ take, IsOpen (s.setFile file ((s.file file).moved take)) file :=
        fun take => isOpen_of_frame (frame_setFile s file rfl rfl rfl) hopen
      by_cases hleft : (s.file file).leftInBuffer = wordMin byteCount (s.file file).leftInBuffer
      · have hleft' :
            (t.file file).leftInBuffer = wordMin byteCount (t.file file).leftInBuffer := by
          rwa [hfile]
        have hsector := nextSector_together hstatic (hmove (s.file file).leftInBuffer)
          (hopen' (s.file file).leftInBuffer)
          (hs.of_continues (continues_nextSector_readLoop hzero hleft))
          (ht.of_continues (by rw [← hfile]; exact continues_nextSector_readLoop hzero hleft'))
        have hframe := frame_nextSector disk file
          (s.setFile file ((s.file file).moved (s.file file).leftInBuffer))
        cases hnext : fatNextSector disk file
          (s.setFile file ((s.file file).moved (s.file file).leftInBuffer)) with
        | mk ok s₁ =>
        cases hnext' : fatNextSector disk file
          (t.setFile file ((s.file file).moved (s.file file).leftInBuffer)) with
        | mk ok' t₁ =>
        rw [hnext] at hframe
        rw [hnext, hnext'] at hsector
        obtain ⟨rfl, hstep⟩ : ok' = ok ∧ InStep disk s₁ t₁ := hsector
        rw [← hfile] at hnext'
        -- there is a next sector on both sides or on neither
        cases ok' with
        | false =>
            rw [fatReadLoop_break hzero hleft hnext, fatReadLoop_break hzero hleft' hnext', hfile]
            exact ⟨rfl, hstep⟩
        | true =>
            rw [fatReadLoop_next hzero hleft hnext] at hs ⊢
            rw [fatReadLoop_next hzero hleft' hnext', hfile] at ht ⊢
            have hrest := ih (byteCount - (s.file file).leftInBuffer) hstep
              (isOpen_of_frame hframe (hopen' (s.file file).leftInBuffer)) hs ht
            exact hrest.map fun rest => (s.file file).taken (s.file file).leftInBuffer ++ rest
      · have hleft' : (t.file file).leftInBuffer
            ≠ wordMin byteCount (t.file file).leftInBuffer := by rwa [hfile]
        rw [fatReadLoop_inside hzero hleft] at hs ⊢
        rw [fatReadLoop_inside hzero hleft', hfile] at ht ⊢
        have hrest := ih (byteCount - wordMin byteCount (s.file file).leftInBuffer)
          (hmove (wordMin byteCount (s.file file).leftInBuffer))
          (hopen' (wordMin byteCount (s.file file).leftInBuffer)) hs ht
        exact hrest.map fun rest =>
          (s.file file).taken (wordMin byteCount (s.file file).leftInBuffer) ++ rest

theorem read_together (byteCount : Word) (h : InStep disk s t) (hopen : IsOpen s file)
    (hs : AllFaithful disk (fatRead disk file byteCount s).2)
    (ht : AllFaithful disk (fatRead disk file byteCount t).2) :
    Together disk (fatRead disk file byteCount s) (fatRead disk file byteCount t) := by
  rw [fatRead] at hs ⊢
  rw [fatRead, h.files file hopen] at ht ⊢
  exact readLoop_together hstatic _ _ h hopen hs ht

lemma readEntry_together (h : InStep disk s t) (hopen : IsOpen s file)
    (hs : AllFaithful disk (fatReadEntry disk file s).2)
    (ht : AllFaithful disk (fatReadEntry disk file t).2) :
    Together disk (fatReadEntry disk file s) (fatReadEntry disk file t) :=
  (read_together hstatic 32#32 h hopen hs ht).map fun bytes =>
    if bytes.length = 32 then some (fatDirectoryEntry fun k => bytes.getD k 0#8) else none

/-! ### Searching -/

/-- **Searching** an open directory has the same result. -/
theorem findLoop_together (shortName : List Byte) (fuel : ℕ) (h : InStep disk s t)
    (hopen : IsOpen s file) (hs : AllFaithful disk (fatFindLoop disk file shortName fuel s).2)
    (ht : AllFaithful disk (fatFindLoop disk file shortName fuel t).2) :
    Together disk (fatFindLoop disk file shortName fuel s)
      (fatFindLoop disk file shortName fuel t) := by
  induction fuel generalizing s t with
  | zero => exact ⟨rfl, h⟩
  | succ fuel ih =>
      have hread := readEntry_together hstatic h hopen
        (hs.of_continues continues_readEntry_findLoop)
        (ht.of_continues continues_readEntry_findLoop)
      have hframe := frame_readEntry disk file s
      rw [fatFindLoop] at hs ht ⊢
      rw [fatFindLoop]
      cases heq : fatReadEntry disk file s with
      | mk found s₁ =>
      cases heq' : fatReadEntry disk file t with
      | mk found' t₁ =>
      rw [heq] at hs hread hframe
      rw [heq'] at ht hread
      obtain ⟨rfl, hstep⟩ : found' = found ∧ InStep disk s₁ t₁ := hread
      cases found' with
      | none => exact ⟨rfl, hstep⟩
      | some entry =>
          dsimp only at hs ht ⊢
          split_ifs at hs ht ⊢ with hname
          · exact ⟨rfl, hstep⟩
          · exact ih hstep (isOpen_of_frame hframe hopen) hs ht

/-- The current directory of `FAT_Open`, unless it is `NULL`, is open. -/
def CurrentOpen (s : FatState) (current : Option FatHandle) : Prop :=
  ∀ file, current = some file → IsOpen s file

lemma findFile_together {current : Option FatHandle} (fuel : ℕ) (name : List Byte)
    (h : InStep disk s t) (hopen : CurrentOpen s current)
    (hs : AllFaithful disk (fatFindFile disk fuel current name s).2)
    (ht : AllFaithful disk (fatFindFile disk fuel current name t).2) :
    Together disk (fatFindFile disk fuel current name s)
      (fatFindFile disk fuel current name t) := by
  cases current with
  | none => exact ⟨rfl, h⟩
  | some file => exact findLoop_together hstatic _ fuel h (hopen file rfl) hs ht

/-! ### Opening and closing -/

omit hstatic in
lemma close_together (h : InStep disk s t) (hopen : IsOpen s file) :
    InStep disk (fatClose file s) (fatClose file t) := by
  have hfile := h.files file hopen
  cases file with
  | root =>
      have hroot : t.rootDirectory = s.rootDirectory := hfile
      rw [fatClose, fatClose, hroot]
      exact h.setFile_same .root _
  | slot i =>
      have hslot : t.openedFiles i = s.openedFiles i := hfile
      rw [fatClose, fatClose, hslot]
      exact h.setFile_same (.slot i) _

omit hstatic in
lemma closeCurrent_together {current : Option FatHandle} (h : InStep disk s t)
    (hopen : CurrentOpen s current) :
    InStep disk (fatCloseCurrent current s) (fatCloseCurrent current t) := by
  cases current with
  | none => exact h
  | some file => exact close_together h (hopen file rfl)

omit hstatic in
lemma freeHandle_eq (h : Alike s t) : freeHandle t = freeHandle s := by
  have hopened : ∀ i, (t.openedFiles i).opened = (s.openedFiles i).opened :=
    fun i => h.opened (.slot i)
  simp only [freeHandle, hopened]

/-- **Opening an entry** takes the same slot on both sides. -/
theorem openEntry_together (entry : FatDirectoryEntry) (h : InStep disk s t) :
    Together disk (fatOpenEntry disk entry s) (fatOpenEntry disk entry t) := by
  have hfree := freeHandle_eq h.toAlike
  cases hslot : freeHandle s with
  | none =>
      rw [fatOpenEntry_full hslot, fatOpenEntry_full (hfree.trans hslot)]
      exact ⟨rfl, h⟩
  | some i =>
      have hopened : (t.openedFiles i).opened = (s.openedFiles i).opened := h.opened (.slot i)
      have hstate : InStep disk (entryState entry i s) (entryState entry i t) :=
        h.setFile hopened fun hopen => by
          have hfile : t.openedFiles i = s.openedFiles i := h.files (.slot i) hopen
          rw [hfile]
      have hfd : (entryState entry i t).file (.slot i)
          = { (entryState entry i s).file (.slot i) with buffer := (t.openedFiles i).buffer } := by
        rw [entryState, entryState, FatState.file_setFile_self, FatState.file_setFile_self]
        simp only [FatDirectoryEntry.fileData, hopened]
      have hread := readBuffer_together hstatic hstate hfd
        (fatClusterToLba (entryState entry i s) (entry.fileData (s.openedFiles i)).currentCluster)
      have hlba : entryRead disk entry i t = fatReadBuffer disk (.slot i)
          (fatClusterToLba (entryState entry i s) (entry.fileData (s.openedFiles i)).currentCluster)
          (entryState entry i t) := by
        rw [entryRead, fatClusterToLba, fatClusterToLba, hstate.dataSectionLba, hstate.bootSector]
        rfl
      rw [← hlba] at hread
      obtain ⟨htogether, hfile⟩ : Together disk (entryRead disk entry i s)
          (entryRead disk entry i t) ∧ ((entryRead disk entry i s).1 = true →
            (entryRead disk entry i t).2.openedFiles i
              = (entryRead disk entry i s).2.openedFiles i) := hread
      cases heq : entryRead disk entry i s with
      | mk ok s₁ =>
      cases heq' : entryRead disk entry i t with
      | mk ok' t₁ =>
      rw [heq, heq'] at htogether hfile
      obtain ⟨rfl, hstep⟩ : ok' = ok ∧ InStep disk s₁ t₁ := htogether
      cases ok' with
      | false =>
          rw [fatOpenEntry_fails hslot heq, fatOpenEntry_fails (hfree.trans hslot) heq']
          exact ⟨rfl, hstep⟩
      | true =>
          have hsame : t₁.openedFiles i = s₁.openedFiles i := hfile rfl
          rw [fatOpenEntry_opens hslot heq, fatOpenEntry_opens (hfree.trans hslot) heq', hsame]
          exact ⟨rfl, hstep.setFile_same (.slot i) _⟩

omit hstatic in
/-- The file that is returned is open. -/
lemma currentOpen_openEntry (entry : FatDirectoryEntry) :
    CurrentOpen (fatOpenEntry disk entry s).2 (fatOpenEntry disk entry s).1 := by
  intro file hfile
  cases hslot : freeHandle s with
  | none =>
      rw [fatOpenEntry_full hslot] at hfile
      cases hfile
  | some i =>
      cases heq : entryRead disk entry i s with
      | mk ok s₁ =>
      cases ok with
      | false =>
          rw [fatOpenEntry_fails hslot heq] at hfile
          cases hfile
      | true =>
          rw [fatOpenEntry_opens hslot heq] at hfile ⊢
          obtain rfl := Option.some.inj hfile
          rw [IsOpen, FatState.file_setFile_self]

omit hstatic in
lemma currentOpen_findFile {current : Option FatHandle} (fuel : ℕ) (name : List Byte)
    (hopen : CurrentOpen s current) :
    CurrentOpen (fatFindFile disk fuel current name s).2 current := by
  rintro file rfl
  exact isOpen_of_frame (frame_findLoop disk file _ fuel s) (hopen file rfl)

omit hstatic in
lemma isOpen_ofPointer {current : Option FatHandle} (hopen : CurrentOpen s current)
    (h : OpenResult.ofPointer current = .handle file) : IsOpen s file := by
  cases current with
  | none => cases h
  | some file' =>
      obtain rfl := OpenResult.handle.inj h
      exact hopen file' rfl

omit hstatic in
/-- The file that `FAT_Open` returns is open. -/
lemma isOpen_openLoop (fuel n : ℕ) {path : List Byte} {name : ℕ → Byte}
    {current : Option FatHandle} (hopen : CurrentOpen s current)
    (h : (fatOpenLoop disk fuel n path name current s).1 = .handle file) :
    IsOpen (fatOpenLoop disk fuel n path name current s).2.2 file := by
  induction n generalizing path name current s with
  | zero => exact isOpen_ofPointer hopen h
  | succ n ih =>
      by_cases hpath : path = []
      · rw [hpath, fatOpenLoop_nil] at h ⊢
        exact isOpen_ofPointer hopen h
      cases heq : fatFindFile disk fuel current (passedName name path) s with
      | mk result s₁ =>
      cases result with
      | found entry =>
          rw [fatOpenLoop_found hpath heq] at h ⊢
          exact ih (currentOpen_openEntry entry) h
      | absent =>
          rw [fatOpenLoop_absent hpath heq] at h
          cases h
      | endless =>
          rw [fatOpenLoop_endless hpath heq] at h
          cases h
      | nullHandle =>
          rw [fatOpenLoop_nullHandle hpath heq] at h
          cases h

/-- **`FAT_Open`**, with the names that it looks up the same on both sides. -/
theorem openLoop_together (fuel n : ℕ) {path : List Byte} (h0 : 0#8 ∉ path) {name name' : ℕ → Byte}
    (hnames : pathNames name' path = pathNames name path) {current : Option FatHandle}
    (h : InStep disk s t) (hopen : CurrentOpen s current)
    (hs : AllFaithful disk (fatOpenLoop disk fuel n path name current s).2.2)
    (ht : AllFaithful disk (fatOpenLoop disk fuel n path name' current t).2.2) :
    (fatOpenLoop disk fuel n path name' current t).1
        = (fatOpenLoop disk fuel n path name current s).1 ∧
      Together disk (fatOpenLoop disk fuel n path name current s).2
        (fatOpenLoop disk fuel n path name' current t).2 := by
  induction n generalizing path name name' current s t with
  | zero => exact ⟨rfl, rfl, h⟩
  | succ n ih =>
      by_cases hpath : path = []
      · rw [hpath, fatOpenLoop_nil, fatOpenLoop_nil]
        exact ⟨rfl, rfl, h⟩
      rw [pathNames_eq_cons name h0 hpath, pathNames_eq_cons name' h0 hpath] at hnames
      obtain ⟨hpassed, hrest⟩ := List.cons.inj hnames
      have hfind := findFile_together hstatic fuel (passedName name path) h hopen
        (hs.of_continues (continues_findFile_openLoop hpath))
        (ht.of_continues (by rw [← hpassed]; exact continues_findFile_openLoop hpath))
      have hopen' :
          CurrentOpen (fatFindFile disk fuel current (passedName name path) s).2 current :=
        currentOpen_findFile fuel (passedName name path) hopen
      cases heq : fatFindFile disk fuel current (passedName name path) s with
      | mk result s₁ =>
      cases heq' : fatFindFile disk fuel current (passedName name path) t with
      | mk result' t₁ =>
      rw [heq] at hopen'
      rw [heq, heq'] at hfind
      obtain ⟨rfl, hstep⟩ : result' = result ∧ InStep disk s₁ t₁ := hfind
      have hclose := closeCurrent_together hstep hopen'
      rw [← hpassed] at heq'
      cases result' with
      | found entry =>
          obtain ⟨hhandle, hentry⟩ := openEntry_together hstatic entry hclose
          rw [fatOpenLoop_found hpath heq] at hs ⊢
          rw [fatOpenLoop_found hpath heq'] at ht ⊢
          dsimp only at hs ht ⊢
          rw [hhandle] at ht ⊢
          obtain ⟨hresult, hsearches, hlast⟩ := ih (zero_notMem_restPath h0) hrest hentry
            (currentOpen_openEntry entry) hs ht
          exact ⟨hresult, by rw [hsearches, hpassed], hlast⟩
      | absent =>
          rw [fatOpenLoop_absent hpath heq, fatOpenLoop_absent hpath heq', hpassed]
          exact ⟨rfl, rfl, hclose⟩
      | endless =>
          rw [fatOpenLoop_endless hpath heq, fatOpenLoop_endless hpath heq', hpassed]
          exact ⟨rfl, rfl, hstep⟩
      | nullHandle =>
          rw [fatOpenLoop_nullHandle hpath heq, fatOpenLoop_nullHandle hpath heq', hpassed]
          exact ⟨rfl, rfl, hstep⟩

end

end MiqOSoft
