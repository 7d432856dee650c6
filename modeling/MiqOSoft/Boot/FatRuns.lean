import MiqOSoft.Boot.FatLockstep

/-!
What earlier calls of the FAT driver change for a caller.

* `fatSession`: a call of `FAT_Open` and reads of the file that it returns.
* `RootKept`: a call stays inside the first sector of the root directory, which
  `FAT_Initialize` has read.  `FAT_Close` puts the position back, but does not read that sector
  again.
* `fatSession_after_calls`: after calls that keep to the first sector and leave no file open, a
  session goes as it does right after `FAT_Initialize`.
* `rootDisk`: a FAT12 volume with two sectors of root directory, where the search for a name that
  is absent makes a file disappear.
-/

namespace MiqOSoft

open Machine Transition

/-! ### Sessions -/

/-- What a caller sees of a session. -/
structure FatSession where
  result : OpenResult
  searches : List FatSearch
  delivered : List (List Byte)
  deriving DecidableEq

/-- Calls of `FAT_Read`, one after the other. -/
def fatReads (disk : Partition) (file : FatHandle) :
    List Word → FatState → List (List Byte) × FatState
  | [], s => ([], s)
  | byteCount :: byteCounts, s =>
      match fatRead disk file byteCount s with
      | (bytes, s) =>
          match fatReads disk file byteCounts s with
          | (rest, s) => (bytes :: rest, s)

/-- The state with a new trace of lookups. -/
def FatState.fresh (s : FatState) : FatState := { s with lookups := [] }

/-- `FAT_Open` of a path and reads of the file that it returns. -/
def fatSession (disk : Partition) (fuel : ℕ) (stack : ℕ → Byte) (path : CString)
    (byteCounts : List Word) (s : FatState) : FatSession × FatState :=
  match fatOpen disk fuel stack path s.fresh with
  | (.handle file, searches, s) =>
      match fatReads disk file byteCounts s with
      | (delivered, s) => (⟨.handle file, searches, delivered⟩, s)
  | (result, searches, s) => (⟨result, searches, []⟩, s)

section

variable {disk : Partition} {s t : FatState} {file : FatHandle}

lemma continues_reads (byteCounts : List Word) (s : FatState) :
    Continues s (fatReads disk file byteCounts s).2 := by
  induction byteCounts generalizing s with
  | nil => exact Continues.refl s
  | cons byteCount byteCounts ih =>
      exact (frame_read disk file byteCount s).toContinues.trans
        (ih (fatRead disk file byteCount s).2)

lemma reads_together (hstatic : ∀ h, disk.fails h = disk.fails []) (byteCounts : List Word)
    (h : InStep disk s t) (hopen : IsOpen s file)
    (hs : AllFaithful disk (fatReads disk file byteCounts s).2)
    (ht : AllFaithful disk (fatReads disk file byteCounts t).2) :
    Together disk (fatReads disk file byteCounts s) (fatReads disk file byteCounts t) := by
  induction byteCounts generalizing s t with
  | nil => exact ⟨rfl, h⟩
  | cons byteCount byteCounts ih =>
      obtain ⟨hbytes, hstep⟩ := read_together hstatic byteCount h hopen
        (hs.of_continues (continues_reads byteCounts _))
        (ht.of_continues (continues_reads byteCounts _))
      obtain ⟨hrest, hlast⟩ := ih hstep
        (isOpen_of_frame (frame_read disk file byteCount s) hopen) hs ht
      exact ⟨congrArg₂ List.cons hbytes hrest, hlast⟩

lemma fatSession_handle {fuel : ℕ} {stack : ℕ → Byte} {path : CString} {byteCounts : List Word}
    {searches : List FatSearch}
    (h : fatOpen disk fuel stack path s.fresh = (.handle file, searches, t)) :
    fatSession disk fuel stack path byteCounts s
      = (⟨.handle file, searches, (fatReads disk file byteCounts t).1⟩,
          (fatReads disk file byteCounts t).2) := by
  rw [fatSession, h]

lemma fatSession_of_ne {fuel : ℕ} {stack : ℕ → Byte} {path : CString} {byteCounts : List Word}
    {result : OpenResult} {searches : List FatSearch}
    (h : fatOpen disk fuel stack path s.fresh = (result, searches, t))
    (hne : ∀ file, result ≠ .handle file) :
    fatSession disk fuel stack path byteCounts s = (⟨result, searches, []⟩, t) := by
  rw [fatSession, h]
  cases result with
  | handle file => exact absurd rfl (hne file)
  | null => rfl
  | endless => rfl
  | nullHandle => rfl

lemma continues_open_session {fuel : ℕ} {stack : ℕ → Byte} {path : CString}
    {byteCounts : List Word} :
    Continues (fatOpen disk fuel stack path s.fresh).2.2
      (fatSession disk fuel stack path byteCounts s).2 := by
  rw [fatSession]
  cases fatOpen disk fuel stack path s.fresh with
  | mk result rest =>
  cases result with
  | handle file => exact continues_reads byteCounts rest.2
  | null => exact Continues.refl rest.2
  | endless => exact Continues.refl rest.2
  | nullHandle => exact Continues.refl rest.2

/-- **Sessions in states that agree** go alike, if their lookups are faithful and the names looked
up are the same. -/
theorem session_together (hstatic : ∀ h, disk.fails h = disk.fails []) (fuel : ℕ)
    {stack stack' : ℕ → Byte} {path : CString}
    (hnames : pathNames stack' (skipSlash path.chars) = pathNames stack (skipSlash path.chars))
    (byteCounts : List Word) (h : InStep disk s.fresh t.fresh) (hroot : IsOpen s .root)
    (hs : AllFaithful disk (fatSession disk fuel stack path byteCounts s).2)
    (ht : AllFaithful disk (fatSession disk fuel stack' path byteCounts t).2) :
    (fatSession disk fuel stack' path byteCounts t).1
      = (fatSession disk fuel stack path byteCounts s).1 := by
  have hcurrent : CurrentOpen s.fresh (some .root) := by
    intro file hfile
    exact Option.some.inj hfile ▸ hroot
  have hopen :
      (fatOpen disk fuel stack' path t.fresh).1 = (fatOpen disk fuel stack path s.fresh).1 ∧
      Together disk (fatOpen disk fuel stack path s.fresh).2
        (fatOpen disk fuel stack' path t.fresh).2 :=
    openLoop_together hstatic fuel _ (zero_notMem_skipSlash path.noNul) hnames h hcurrent
      (hs.of_continues continues_open_session) (ht.of_continues continues_open_session)
  have hhandle : ∀ file, (fatOpen disk fuel stack path s.fresh).1 = .handle file →
      IsOpen (fatOpen disk fuel stack path s.fresh).2.2 file :=
    fun file => isOpen_openLoop fuel _ hcurrent
  cases heq : fatOpen disk fuel stack path s.fresh with
  | mk result rest =>
  obtain ⟨searches, u⟩ := rest
  cases heq' : fatOpen disk fuel stack' path t.fresh with
  | mk result' rest' =>
  obtain ⟨searches', u'⟩ := rest'
  rw [heq] at hhandle
  rw [heq, heq'] at hopen
  obtain ⟨rfl, rfl, hstep⟩ : result' = result ∧ searches' = searches ∧ InStep disk u u' := hopen
  by_cases hfile : ∃ file, result' = .handle file
  · obtain ⟨file, rfl⟩ := hfile
    rw [fatSession_handle heq] at hs ⊢
    rw [fatSession_handle heq'] at ht ⊢
    have hreads := reads_together hstatic byteCounts hstep (hhandle file rfl) hs ht
    rw [hreads.1]
  · have hne : ∀ file, result' ≠ .handle file := fun file h => hfile ⟨file, h⟩
    rw [fatSession_of_ne heq hne, fatSession_of_ne heq' hne]

end

/-! ### The first sector of the root directory -/

/-- The `n`-th entry from the position of the root directory on, in its buffer. -/
def rootRecord (s : FatState) (n : ℕ) : FatDirectoryEntry :=
  fatDirectoryEntry fun k =>
    s.rootDirectory.buffer (s.rootDirectory.position.toNat + 32 * n + k)

/-- A search of the root directory ends in front of the end of its first sector: there the
directory ends itself, or an entry matches. -/
def SearchKept (s : FatState) (shortName : List Byte) : Prop :=
  s.rootDirectory.size ≠ 0#32 ∧ s.rootDirectory.size.toNat < 512 ∨
    ∃ n, s.rootDirectory.position.toNat + 32 * (n + 1) < 512 ∧ (rootRecord s n).name = shortName

/-- The call does not move the root directory on to its second sector.  Of a path, the first
component is looked up in the root directory. -/
def RootKept (s : FatState) : FatCall → Prop
  | .fatOpen stack path =>
      skipSlash path.chars = [] ∨
        SearchKept s (fatGetShortName (passedName stack (skipSlash path.chars)))
  | .fatRead .root byteCount =>
      s.rootDirectory.position.toNat + (s.rootDirectory.clamp byteCount).toNat < 512
  | .fatRead (.slot _) _ => True
  | .fatClose _ => True

/-- The root directory stands in its first sector, as it is in `s₀`. -/
structure InFirstSector (s₀ s : FatState) : Prop where
  root : s.rootDirectory = { s₀.rootDirectory with position := s.rootDirectory.position }
  position : s.rootDirectory.position.toNat < 512
  bounded : Bounded s.rootDirectory

section

variable {disk : Partition} {s₀ s t : FatState}

lemma InFirstSector.congr (h : InFirstSector s₀ s) (heq : t.rootDirectory = s.rootDirectory) :
    InFirstSector s₀ t := by
  refine ⟨?_, ?_, ?_⟩
  · rw [heq]
    exact h.root
  · rw [heq]
    exact h.position
  · rw [heq]
    exact h.bounded

lemma inFirstSector_initialized (h : Initialized disk s) : InFirstSector s s := by
  have hpos : s.rootDirectory.position = 0#32 := by rw [h.root]
  refine ⟨rfl, ?_, bounded_of_position_eq_zero hpos⟩
  rw [hpos]
  decide

/-- `FAT_Close` puts the position back. -/
lemma inFirstSector_close (hfirst : s₀.rootDirectory.currentCluster = s₀.rootDirectory.firstCluster)
    (h : InFirstSector s₀ s) (file : FatHandle) : InFirstSector s₀ (fatClose file s) := by
  cases file with
  | root =>
      refine ⟨?_, show (0#32).toNat < 512 by decide, bounded_of_position_eq_zero rfl⟩
      change { s.rootDirectory with
        position := 0#32
        currentCluster := s.rootDirectory.firstCluster } = _
      rw [h.root, ← hfirst]
      rfl
  | slot i => exact h.congr rfl

lemma fatRead_root_within {byteCount : Word} (hpos : s.rootDirectory.position.toNat < 512)
    (hkept : s.rootDirectory.position.toNat + (s.rootDirectory.clamp byteCount).toNat < 512) :
    fatRead disk .root byteCount s
      = (s.rootDirectory.taken (s.rootDirectory.clamp byteCount),
          s.setFile .root (s.rootDirectory.moved (s.rootDirectory.clamp byteCount))) := by
  refine fatRead_within ?_
  change s.rootDirectory.position.toNat % 512 + (s.rootDirectory.clamp byteCount).toNat < 512
  omega

/-- Reading inside the first sector. -/
lemma inFirstSector_read (h : InFirstSector s₀ s) {byteCount : Word}
    (hkept : s.rootDirectory.position.toNat + (s.rootDirectory.clamp byteCount).toNat < 512) :
    InFirstSector s₀ (fatRead disk .root byteCount s).2 := by
  have hbounded := @bounded_read disk .root s byteCount h.bounded
  have hread := @fatRead_root_within disk s byteCount h.position hkept
  rw [hread] at hbounded ⊢
  refine ⟨?_, ?_, hbounded⟩
  · change s.rootDirectory.moved (s.rootDirectory.clamp byteCount) = _
    rw [FatFileData.moved, h.root]
    rfl
  · change (s.rootDirectory.position + s.rootDirectory.clamp byteCount).toNat < 512
    rw [BitVec.toNat_add]
    omega

lemma isDirectory_of_inFirstSector (hdir : s₀.rootDirectory.isDirectory = true)
    (h : InFirstSector s₀ s) : s.rootDirectory.isDirectory = true := by
  rw [h.root]
  exact hdir

/-- The next entry lies in front of the end of the sector, or the directory ends there. -/
lemma clamp_lt_of_searchKept (hdir : s₀.rootDirectory.isDirectory = true)
    (h : InFirstSector s₀ s) {shortName : List Byte} (hkept : SearchKept s shortName) :
    s.rootDirectory.position.toNat + (s.rootDirectory.clamp 32#32).toNat < 512 := by
  rcases hkept with ⟨hsize, hlt⟩ | ⟨n, hn, -⟩
  · have hle := h.bounded (isDirectory_of_inFirstSector hdir h) hsize
    rw [FatFileData.clamp, if_neg fun h => hsize h.2, toNat_wordMin,
      BitVec.toNat_sub_of_le (BitVec.le_def.mpr hle)]
    omega
  · have hclamp : (s.rootDirectory.clamp 32#32).toNat ≤ 32 := by
      rw [FatFileData.clamp]
      split_ifs
      · rfl
      · rw [toNat_wordMin]
        exact min_le_left _ _
    omega

/-- An entry that does not match is passed over. -/
lemma searchKept_next {shortName : List Byte} (hwithin : s.rootDirectory.position.toNat
      + (32#32).toNat < 512) (hname : (rootRecord s 0).name ≠ shortName)
    (hkept : SearchKept s shortName) :
    SearchKept (s.setFile .root (s.rootDirectory.moved 32#32)) shortName := by
  rcases hkept with hsize | ⟨n, hn, hmatch⟩
  · exact .inl hsize
  · have hpos : (s.rootDirectory.moved 32#32).position.toNat
        = s.rootDirectory.position.toNat + 32 := by
      rw [position_moved, BitVec.toNat_add]
      exact Nat.mod_eq_of_lt (by omega)
    cases n with
    | zero => exact absurd hmatch hname
    | succ n =>
        refine .inr ⟨n, ?_, ?_⟩
        · change (s.rootDirectory.moved 32#32).position.toNat + 32 * (n + 1) < 512
          omega
        · rw [← hmatch]
          refine congrArg (fun b => (fatDirectoryEntry b).name) (funext fun k => ?_)
          change s.rootDirectory.buffer
            ((s.rootDirectory.moved 32#32).position.toNat + 32 * n + k) = _
          rw [hpos]
          exact congrArg s.rootDirectory.buffer (by omega)

/-- **Searching inside the first sector.** -/
theorem inFirstSector_findLoop (hdir : s₀.rootDirectory.isDirectory = true)
    {shortName : List Byte} (fuel : ℕ) (h : InFirstSector s₀ s) (hkept : SearchKept s shortName) :
    InFirstSector s₀ (fatFindLoop disk .root shortName fuel s).2 := by
  induction fuel generalizing s with
  | zero => exact h
  | succ fuel ih =>
      have hwithin := clamp_lt_of_searchKept hdir h hkept
      have hnext := @inFirstSector_read disk s₀ s h _ hwithin
      have hread := @fatRead_root_within disk s _ h.position hwithin
      rw [hread] at hnext
      rw [fatFindLoop]
      by_cases hfull : s.rootDirectory.clamp 32#32 = 32#32
      · rw [hfull] at hread hnext hwithin
        have hentry : fatReadEntry disk .root s
            = (some (rootRecord s 0), s.setFile .root (s.rootDirectory.moved 32#32)) := by
          have hmod := Nat.mod_eq_of_lt h.position
          rw [fatReadEntry_of_read hread (length_taken _ _), fatDirectoryEntry_taken, hmod]
          rfl
        rw [hentry]
        dsimp only
        split_ifs with hname
        · exact hnext
        · exact ih hnext (searchKept_next hwithin hname hkept)
      · have hshort : (s.rootDirectory.taken (s.rootDirectory.clamp 32#32)).length ≠ 32 := by
          rw [length_taken]
          exact fun hlen => hfull (BitVec.eq_of_toNat_eq hlen)
        rw [fatReadEntry_of_short hread hshort]
        exact hnext

/-- **`FAT_Open` with a first component that is found inside the first sector.** -/
theorem inFirstSector_open
    (hfirst : s₀.rootDirectory.currentCluster = s₀.rootDirectory.firstCluster)
    (hdir : s₀.rootDirectory.isDirectory = true) {fuel : ℕ} {stack : ℕ → Byte} {path : CString}
    (h : InFirstSector s₀ s) (hkept : RootKept s (.fatOpen stack path)) :
    InFirstSector s₀ (fatOpen disk fuel stack path s).2.2 := by
  have hentry : ∀ file, file ≠ .root → ∀ u, InFirstSector s₀ u →
      InFirstSector s₀ (fatReadEntry disk file u).2 := fun file hne u hu =>
    hu.congr ((frame_readEntry disk file u).others .root (Ne.symm hne))
  have hopen : ∀ entry u, InFirstSector s₀ u → InFirstSector s₀ (fatOpenEntry disk entry u).2 := by
    intro entry u hu
    rcases fatOpenEntry_frame disk entry u with heq | ⟨i, -, hat⟩
    · rwa [heq]
    · exact hu.congr (hat.others .root (nomatch ·))
  rw [fatOpen]
  rw [RootKept] at hkept
  generalize skipSlash path.chars = p at hkept
  cases hn : p.length with
  | zero => exact h
  | succ n =>
      have hpath : p ≠ [] := List.ne_nil_of_length_eq_add_one hn
      have hfind : InFirstSector s₀
          (fatFindFile disk fuel (some .root) (passedName stack p) s).2 :=
        inFirstSector_findLoop hdir fuel h (hkept.resolve_left hpath)
      cases heq : fatFindFile disk fuel (some .root) (passedName stack p) s with
      | mk result s₁ =>
      rw [heq] at hfind
      have hclose := inFirstSector_close hfirst hfind .root
      cases result with
      | found entry =>
          rw [fatOpenLoop_found hpath heq]
          -- from here on the root directory is not touched
          refine openLoop_invariant (A := fun file => file ≠ .root) (fun _ => nofun) hentry hopen
            (fun file _ u hu => inFirstSector_close hfirst hu file) fuel n _ _
            (fun file hfile => ?_) (hopen entry _ hclose)
          obtain ⟨i, rfl⟩ := fatOpenEntry_slot hfile
          exact nofun
      | absent =>
          rw [fatOpenLoop_absent hpath heq]
          exact hclose
      | endless =>
          rw [fatOpenLoop_endless hpath heq]
          exact hfind
      | nullHandle =>
          rw [fatOpenLoop_nullHandle hpath heq]
          exact hfind

/-- **One call** that keeps the root directory in its first sector. -/
theorem inFirstSector_step (hinit : Initialized disk s₀) {fuel : ℕ} {c : FatCall}
    (h : InFirstSector s₀ s) (hkept : RootKept s c) (hstep : fatStep disk fuel s c = some t) :
    InFirstSector s₀ t := by
  have hfirst : s₀.rootDirectory.currentCluster = s₀.rootDirectory.firstCluster := by
    rw [hinit.root]
  have hdir : s₀.rootDirectory.isDirectory = true := by rw [hinit.root]
  cases c with
  | fatOpen stack path =>
      rw [fatStep_fatOpen hstep]
      exact inFirstSector_open hfirst hdir h hkept
  | fatRead file byteCount =>
      obtain rfl := Option.some.inj hstep
      cases file with
      | root => exact inFirstSector_read h hkept
      | slot i => exact h.congr ((frame_read disk (.slot i) byteCount s).others .root nofun)
  | fatClose file =>
      obtain rfl := Option.some.inj hstep
      exact inFirstSector_close hfirst h file

end

/-! ### A session after other calls -/

/-- The caller has no file open: no slot is in use, and the root directory stands at its
beginning. -/
def NoHandleOpen (s : FatState) : Prop :=
  (∀ i, (s.openedFiles i).opened = false) ∧ s.rootDirectory.position = 0#32

/-- A run of calls that each keep the root directory in its first sector. -/
abbrev KeptRun (disk : Partition) (fuel : ℕ) :=
  Run (fatStep disk fuel) fun s c => Permitted s c ∧ RootKept s c

section

variable {disk : Partition} {s₀ s : FatState} {fuel : ℕ} {cs : List FatCall}

/-- What the calls of a run leave. -/
structure Settled (disk : Partition) (s₀ s : FatState) : Prop where
  root : InFirstSector s₀ s
  cache : CacheValid disk s
  layout : Continues s₀ s

lemma settled_step (hinit : Initialized disk s₀) {c : FatCall} {t : FatState}
    (h : Settled disk s₀ s) (hkept : RootKept s c) (hstep : fatStep disk fuel s c = some t) :
    Settled disk s₀ t where
  root := inFirstSector_step hinit h.root hkept hstep
  cache := (cacheValid_kept disk).step h.cache hstep
  layout := h.layout.trans (continues_step hstep)

/-- **Every state of a run** that keeps the root directory. -/
theorem settled_run (hinit : Initialized disk s₀) (hrun : KeptRun disk fuel s₀ cs s) :
    Settled disk s₀ s :=
  hrun.invariant (P := Settled disk s₀)
    (fun _ _ _ h hok hstep => settled_step hinit h hok.2 hstep)
    ⟨inFirstSector_initialized hinit, .inl hinit.cache, Continues.refl s₀⟩

/-- Without an open file a state is like that right after `FAT_Initialize`. -/
lemma inStep_of_settled (hinit : Initialized disk s₀) (h : Settled disk s₀ s)
    (hclosed : NoHandleOpen s) : InStep disk s₀.fresh s.fresh := by
  have hpos : s₀.rootDirectory.position = 0#32 := by rw [hinit.root]
  have hroot : s.rootDirectory = s₀.rootDirectory := by
    rw [h.root.root, hclosed.2, ← hpos]
  refine ⟨⟨h.layout.bootSector, h.layout.dataSectionLba, h.layout.fatType, h.layout.sectorsPerFat,
    fun file => ?_, fun file hopen => ?_⟩, ?_, ?_⟩
  · cases file with
    | root => exact congrArg FatFileData.opened hroot
    | slot i => exact (hclosed.1 i).trans (hinit.closed i).symm
  · cases file with
    | root => exact hroot
    | slot i => exact absurd ((hinit.closed i).symm.trans hopen) Bool.false_ne_true
  · exact .inl hinit.cache
  · exact cacheValid_congr h.cache rfl rfl rfl

end

/-- **A session after other calls** goes as it does right after `FAT_Initialize`: `FAT_Open`
looks up the same names with the same results and returns the same handle, and every `FAT_Read`
delivers the same bytes.  The calls before have kept the root directory in its first sector and
leave no file open; the stack leaves the same byte behind the last name; and the lookups of both
sessions are faithful. -/
theorem fatSession_after_calls {disk : Partition} {g s₀ s : FatState} {fuel fuel' : ℕ}
    {cs : List FatCall} (hinit : fatInitialize disk g = (some true, s₀))
    (hstatic : ∀ h, disk.fails h = disk.fails []) (hrun : KeptRun disk fuel s₀ cs s)
    (hclosed : NoHandleOpen s) {stack stack' : ℕ → Byte} {path : CString}
    (hnames : pathNames stack' (skipSlash path.chars) = pathNames stack (skipSlash path.chars))
    (byteCounts : List Word)
    (hfaithful : AllFaithful disk (fatSession disk fuel' stack path byteCounts s₀).2)
    (hfaithful' : AllFaithful disk (fatSession disk fuel' stack' path byteCounts s).2) :
    (fatSession disk fuel' stack' path byteCounts s).1
      = (fatSession disk fuel' stack path byteCounts s₀).1 := by
  have hready := fatInitialize_ready hinit
  have hstep := inStep_of_settled hready (settled_run hready hrun) hclosed
  have hroot : IsOpen s₀ .root := by rw [IsOpen, FatState.file, hready.root]
  exact session_together hstatic fuel' hnames byteCounts hstep hroot hfaithful hfaithful'

/-! ### A file that disappears -/

/-- A FAT12 volume with a file `KERNEL.ELF` of 513 bytes: one reserved sector, one FAT of one
sector, a root directory of two sectors, and clusters of one sector from sector 4 on. -/
def rootDisk : Partition :=
  Partition.image 64 [
    (0, 11, [0x00#8, 0x02#8, 0x01#8, 0x01#8, 0x00#8, 0x01#8, 0x20#8, 0x00#8, 0x40#8, 0x00#8,
      0xF0#8, 0x01#8, 0x00#8]),
    (1, 3, [0x03#8, 0xF0#8, 0xFF#8]),
    (2, 0, ascii "KERNEL  ELF"),
    (2, 26, [0x02#8, 0x00#8, 0x01#8, 0x02#8])]

/-- The state after `FAT_Initialize`. -/
def rootState : FatState := (fatInitialize rootDisk blankState).2

/-- A file in the first sector of the root directory. -/
def kernelPath : CString := ⟨ascii "kernel.elf", by decide⟩

/-- A file that is not there. -/
def absentPath : CString := ⟨ascii "absent", by decide⟩

/-- The first slot of `OpenedFiles`. -/
def firstSlot : FatHandle := .slot ⟨0, by decide⟩

/-- The state after `FAT_Open`, the buffer `name` having been zero. -/
def openState (path : CString) : FatState :=
  (fatOpen rootDisk 40 (fun _ => 0#8) path rootState).2.2

lemma rootDisk_initialized : fatInitialize rootDisk blankState = (some true, rootState) :=
  Prod.ext (by decide +kernel : (fatInitialize rootDisk blankState).1 = some true) rfl

lemma rootDisk_readable : FatReadable rootDisk rootState := fatReadable_image (by decide +kernel)

lemma fatStep_openState {path : CString} (pointer : Option FatHandle)
    (h : (fatOpen rootDisk 40 (fun _ => 0#8) path rootState).1 = .ofPointer pointer) :
    fatStep rootDisk 40 rootState (.fatOpen (fun _ => 0#8) path) = some (openState path) :=
  fatStep_ofPointer h

/-- **A file that disappears**: after the search for a name that is absent, which leaves the
second sector of the root directory in its buffer, `kernel.elf` is not found any more. -/
theorem fatOpen_after_absent :
    fatInitialize rootDisk blankState = (some true, rootState) ∧ FatReadable rootDisk rootState ∧
      FatRun rootDisk 40 rootState [.fatOpen (fun _ => 0#8) absentPath] (openState absentPath) ∧
        NoHandleOpen (openState absentPath) ∧
          (fatSession rootDisk 40 (fun _ => 0#8) kernelPath [] rootState).1.result
              = .handle firstSlot ∧
            (fatSession rootDisk 40 (fun _ => 0#8) kernelPath [] (openState absentPath)).1.result
              = .null := by
  refine ⟨rootDisk_initialized, rootDisk_readable, ?_, ⟨by decide +kernel, by decide +kernel⟩,
    by decide +kernel, by decide +kernel⟩
  exact .cons trivial (fatStep_openState none (by decide +kernel)) (.nil _)

/-- A lookup of cluster 2 in the first window. -/
lemma kernel_faithful {s : FatState} (hreserved : s.bootSector.reservedSectors = 1#16)
    (hlookups : s.lookups = [(2#32, 0#32)]) : AllFaithful rootDisk s := by
  intro l hl
  rw [hlookups, List.mem_singleton] at hl
  refine ⟨fun _ => ?_, fun hover => ?_⟩
  · rw [hreserved, hl]
    rfl
  · obtain ⟨htype, hend, -⟩ := hover
    rw [hl, htype] at hend
    exact absurd hend (by decide)

theorem fatSession_after_kernel :
    (fatSession rootDisk 40 (fun _ => 0#8) kernelPath [512#32, 512#32]
        (fatClose firstSlot (openState kernelPath))).1
      = (fatSession rootDisk 40 (fun _ => 0#8) kernelPath [512#32, 512#32] rootState).1 := by
  have hopen : ((openState kernelPath).file firstSlot).opened = true := by decide +kernel
  have hmatch : SearchKept rootState (fatGetShortName (passedName (fun _ => 0#8)
      (skipSlash kernelPath.chars))) := .inr ⟨0, by decide +kernel, by decide +kernel⟩
  have hrun : KeptRun rootDisk 40 rootState
      [.fatOpen (fun _ => 0#8) kernelPath, .fatClose firstSlot]
      (fatClose firstSlot (openState kernelPath)) :=
    .cons ⟨trivial, .inr hmatch⟩ (fatStep_openState (some firstSlot) (by decide +kernel))
      (.cons ⟨hopen, trivial⟩ rfl (.nil _))
  exact fatSession_after_calls rootDisk_initialized (fun _ => rfl) hrun
    ⟨by decide +kernel, by decide +kernel⟩ rfl [512#32, 512#32]
    (kernel_faithful (by decide +kernel) (by decide +kernel))
    (kernel_faithful (by decide +kernel) (by decide +kernel))

end MiqOSoft
