import MiqOSoft.Boot.FatSteps
import MiqOSoft.Transition.Run

/-!
Calls of the FAT driver.

* `FatCall`, `fatStep`: the calls `FAT_Open`, `FAT_Read` and `FAT_Close`.
* `fatStep_invariant`: what reading an entry or bytes, opening an entry and closing a file keep,
  every call keeps.
* `Kept`: what the accesses to files and disk keep, every call and every run keeps.
* `run_bounded`: in every state of a run the position of an open directory stays inside its
  size.
-/

namespace MiqOSoft

open Machine Transition

/-- The calls. -/
inductive FatCall
  | fatOpen (stack : ℕ → Byte) (path : CString)
  | fatRead (file : FatHandle) (byteCount : Word)
  | fatClose (file : FatHandle)

/-- The state after a call; there is none if `FAT_Open` does not return. -/
def fatStep (disk : Partition) (fuel : ℕ) (s : FatState) : FatCall → Option FatState
  | .fatOpen stack path =>
      match fatOpen disk fuel stack path s with
      | (.handle _, _, s) => some s
      | (.null, _, s) => some s
      | (.endless, _, _) => none
      | (.nullHandle, _, _) => none
  | .fatRead file byteCount => some (fatRead disk file byteCount s).2
  | .fatClose file => some (fatClose file s)

/-- The file is open. -/
def IsOpen (s : FatState) (file : FatHandle) : Prop := (s.file file).opened = true

/-- A caller reads and closes files that are open. -/
def Permitted (s : FatState) : FatCall → Prop
  | .fatOpen _ _ => True
  | .fatRead file _ => IsOpen s file
  | .fatClose file => IsOpen s file

/-- A run of calls, each permitted. -/
abbrev FatRun (disk : Partition) (fuel : ℕ) := Run (fatStep disk fuel) Permitted

lemma fatStep_fatOpen {disk : Partition} {fuel : ℕ} {s t : FatState} {stack : ℕ → Byte}
    {path : CString} (h : fatStep disk fuel s (.fatOpen stack path) = some t) :
    t = (fatOpen disk fuel stack path s).2.2 := by
  rw [fatStep] at h
  split at h
  · rename_i heq
    rw [heq]
    exact (Option.some.inj h).symm
  · rename_i heq
    rw [heq]
    exact (Option.some.inj h).symm
  · cases h
  · cases h

/-- A call that returns a pointer returns. -/
lemma fatStep_ofPointer {disk : Partition} {fuel : ℕ} {s : FatState} {stack : ℕ → Byte}
    {path : CString} {pointer : Option FatHandle}
    (h : (fatOpen disk fuel stack path s).1 = .ofPointer pointer) :
    fatStep disk fuel s (.fatOpen stack path) = some (fatOpen disk fuel stack path s).2.2 := by
  rw [fatStep]
  cases heq : fatOpen disk fuel stack path s with
  | mk result rest =>
  rw [heq] at h
  dsimp only at h
  subst h
  cases pointer <;> rfl

/-! ### Invariants -/

section

variable {disk : Partition} {P : FatState → Prop}

/-- What reading an entry keeps, a search keeps. -/
lemma findLoop_invariant {file : FatHandle}
    (hentry : ∀ s, P s → P (fatReadEntry disk file s).2) (shortName : List Byte) (fuel : ℕ)
    {s : FatState} (hs : P s) : P (fatFindLoop disk file shortName fuel s).2 := by
  induction fuel generalizing s with
  | zero => exact hs
  | succ fuel ih =>
      have hread := hentry s hs
      rw [fatFindLoop]
      cases heq : fatReadEntry disk file s with
      | mk entry t =>
      rw [heq] at hread
      cases entry with
      | none => exact hread
      | some entry =>
          dsimp only
          split_ifs
          · exact hread
          · exact ih hread

/-- The loop of `FAT_Open` searches, closes and opens entries; the files that it goes through
are `current` and slots. -/
lemma openLoop_invariant {A : FatHandle → Prop} (hslot : ∀ i, A (.slot i))
    (hentry : ∀ file, A file → ∀ s, P s → P (fatReadEntry disk file s).2)
    (hopen : ∀ entry s, P s → P (fatOpenEntry disk entry s).2)
    (hclose : ∀ file, A file → ∀ s, P s → P (fatClose file s)) (fuel n : ℕ) (path : List Byte)
    (name : ℕ → Byte) {current : Option FatHandle} (hcurrent : ∀ file, current = some file → A file)
    {s : FatState} (hs : P s) : P (fatOpenLoop disk fuel n path name current s).2.2 := by
  induction n generalizing path name current s with
  | zero => exact hs
  | succ n ih =>
      by_cases hpath : path = []
      · rw [hpath, fatOpenLoop_nil]
        exact hs
      have hend : ∀ t, P t → P (fatCloseCurrent current t) := fun t ht => by
        cases current with
        | none => exact ht
        | some file => exact hclose file (hcurrent file rfl) t ht
      have hfind : P (fatFindFile disk fuel current (passedName name path) s).2 := by
        cases current with
        | none => exact hs
        | some file => exact findLoop_invariant (hentry file (hcurrent file rfl)) _ fuel hs
      cases heq : fatFindFile disk fuel current (passedName name path) s with
      | mk result s₁ =>
      rw [heq] at hfind
      cases result with
      | found entry =>
          rw [fatOpenLoop_found hpath heq]
          refine ih _ _ (fun file hfile => ?_) (hopen entry _ (hend s₁ hfind))
          obtain ⟨i, rfl⟩ := fatOpenEntry_slot hfile
          exact hslot i
      | absent =>
          rw [fatOpenLoop_absent hpath heq]
          exact hend s₁ hfind
      | endless =>
          rw [fatOpenLoop_endless hpath heq]
          exact hfind
      | nullHandle =>
          rw [fatOpenLoop_nullHandle hpath heq]
          exact hfind

variable (hentry : ∀ file s, P s → P (fatReadEntry disk file s).2)
  (hopen : ∀ entry s, P s → P (fatOpenEntry disk entry s).2)
  (hclose : ∀ file s, P s → P (fatClose file s))

include hentry hopen hclose

/-- What reading, opening and closing keep, `FAT_Open` keeps. -/
lemma open_invariant (fuel : ℕ) (stack : ℕ → Byte) (path : CString) {s : FatState} (hs : P s) :
    P (fatOpen disk fuel stack path s).2.2 :=
  openLoop_invariant (A := fun _ => True) (fun _ => trivial) (fun file _ => hentry file) hopen
    (fun file _ => hclose file) fuel _ _ stack (fun _ _ => trivial) hs

/-- What the parts of the calls keep, every call keeps. -/
theorem fatStep_invariant (hread : ∀ file byteCount s, P s → P (fatRead disk file byteCount s).2)
    {fuel : ℕ} {s t : FatState} {c : FatCall} (hs : P s) (hstep : fatStep disk fuel s c = some t) :
    P t := by
  cases c with
  | fatOpen stack path =>
      rw [fatStep_fatOpen hstep]
      exact open_invariant hentry hopen hclose fuel stack path hs
  | fatRead file byteCount =>
      obtain rfl := Option.some.inj hstep
      exact hread file byteCount s hs
  | fatClose file =>
      obtain rfl := Option.some.inj hstep
      exact hclose file s hs

end

/-- What storing the data of a file, reading a sector into its buffer and a lookup keep. -/
structure Kept (disk : Partition) (P : FatState → Prop) : Prop where
  setFile : ∀ s file fd, P s → P (s.setFile file fd)
  readBuffer : ∀ s file lba, P s → P (fatReadBuffer disk file lba s).2
  nextCluster : ∀ s c, P s → P (fatNextCluster disk c s).2

namespace Kept

variable {disk : Partition} {P : FatState → Prop} {s t : FatState}

lemma advance (h : Kept disk P) (i : Fin MAX_FILE_HANDLES) (hs : P s) :
    P (fatAdvance disk i s) := by
  rw [fatAdvance]
  split_ifs
  · exact h.setFile _ _ _ (h.nextCluster s _ hs)
  · exact h.setFile _ _ _ hs

lemma nextSector (h : Kept disk P) (file : FatHandle) (hs : P s) :
    P (fatNextSector disk file s).2 := by
  cases file with
  | root => exact h.readBuffer _ _ _ (h.setFile _ _ _ hs)
  | slot i =>
      have hadvance := h.advance i hs
      rw [fatNextSector]
      split_ifs
      · exact h.setFile _ (.slot i) _ hadvance
      · exact h.readBuffer _ (.slot i) _ hadvance

lemma read (h : Kept disk P) (file : FatHandle) (byteCount : Word) (hs : P s) :
    P (fatRead disk file byteCount s).2 :=
  readLoop_invariant (fun _ _ ht => h.setFile _ _ _ ht) (fun _ ht => h.nextSector file ht) _ _ hs

lemma openEntry (h : Kept disk P) (entry : FatDirectoryEntry) (hs : P s) :
    P (fatOpenEntry disk entry s).2 := by
  cases hfree : freeHandle s with
  | none => rwa [fatOpenEntry_full hfree]
  | some i =>
      have hentry : P (entryRead disk entry i s).2 := h.readBuffer _ _ _ (h.setFile _ _ _ hs)
      cases hread : entryRead disk entry i s with
      | mk ok t =>
      rw [hread] at hentry
      cases ok with
      | false => rwa [fatOpenEntry_fails hfree hread]
      | true =>
          rw [fatOpenEntry_opens hfree hread]
          exact h.setFile _ (.slot i) _ hentry

lemma close (h : Kept disk P) (file : FatHandle) (hs : P s) : P (fatClose file s) := by
  cases file with
  | root => exact h.setFile _ .root _ hs
  | slot i => exact h.setFile _ (.slot i) _ hs

/-- **One call.** -/
theorem step (h : Kept disk P) {fuel : ℕ} {c : FatCall} (hs : P s)
    (hstep : fatStep disk fuel s c = some t) : P t :=
  fatStep_invariant (fun file _ => h.read file 32#32) (fun entry _ => h.openEntry entry)
    (fun file _ => h.close file) (fun file byteCount _ => h.read file byteCount) hs hstep

/-- **Every state of a run.** -/
theorem run (h : Kept disk P) {fuel : ℕ} {cs : List FatCall} (hs : P s)
    (hrun : FatRun disk fuel s cs t) : P t :=
  hrun.invariant (fun _ _ _ hu _ hstep => h.step hu hstep) hs

end Kept

/-! ### The layout remains -/

section

variable {disk : Partition} {fuel n : ℕ} {path : List Byte} {name : ℕ → Byte}
  {current : Option FatHandle} {s s' : FatState}

lemma continues_close (file : FatHandle) (s : FatState) : Continues s (fatClose file s) := by
  cases file with
  | root => exact continues_setFile s .root _
  | slot i => exact continues_setFile s (.slot i) _

lemma continues_openEntry (disk : Partition) (entry : FatDirectoryEntry) (s : FatState) :
    Continues s (fatOpenEntry disk entry s).2 := by
  rcases fatOpenEntry_frame disk entry s with heq | ⟨_, -, hat⟩
  · rw [heq]
  · exact hat.toContinues

lemma continues_openLoop :
    Continues s (fatOpenLoop disk fuel n path name current s).2.2 :=
  openLoop_invariant (P := Continues s) (A := fun _ => True) (fun _ => trivial)
    (fun file _ u hu => hu.trans (frame_readEntry disk file u).toContinues)
    (fun entry u hu => hu.trans (continues_openEntry disk entry u))
    (fun file _ u hu => hu.trans (continues_close file u)) fuel n path name (fun _ _ => trivial)
    (Continues.refl s)

/-- A turn of `FAT_Open` searches first. -/
lemma continues_findFile_openLoop (hpath : path ≠ []) :
    Continues (fatFindFile disk fuel current (passedName name path) s).2
      (fatOpenLoop disk fuel (n + 1) path name current s).2.2 := by
  have hclose : ∀ u, Continues u (fatCloseCurrent current u) := fun u => by
    cases current with
    | none => exact Continues.refl u
    | some file => exact continues_close file u
  cases heq : fatFindFile disk fuel current (passedName name path) s with
  | mk result s₁ =>
  cases result with
  | found entry =>
      rw [fatOpenLoop_found hpath heq]
      exact ((hclose s₁).trans (continues_openEntry disk entry _)).trans continues_openLoop
  | absent =>
      rw [fatOpenLoop_absent hpath heq]
      exact hclose s₁
  | endless =>
      rw [fatOpenLoop_endless hpath heq]
  | nullHandle =>
      rw [fatOpenLoop_nullHandle hpath heq]

lemma continues_step {c : FatCall} (hstep : fatStep disk fuel s c = some s') : Continues s s' :=
  fatStep_invariant (P := Continues s)
    (fun file u hu => hu.trans (frame_readEntry disk file u).toContinues)
    (fun entry u hu => hu.trans (continues_openEntry disk entry u))
    (fun file u hu => hu.trans (continues_close file u))
    (fun file byteCount u hu => hu.trans (frame_read disk file byteCount u).toContinues)
    (Continues.refl s) hstep

lemma continues_run {cs : List FatCall} (hrun : FatRun disk fuel s cs s') : Continues s s' :=
  hrun.invariant (P := Continues s) (fun _ _ _ hu _ hstep => hu.trans (continues_step hstep))
    (Continues.refl s)

end

/-! ### Positions -/

/-- The position stays inside the size of a directory that has one. -/
def Bounded (fd : FatFileData) : Prop :=
  fd.isDirectory = true → fd.size ≠ 0#32 → fd.position.toNat ≤ fd.size.toNat

lemma bounded_of_position_eq_zero {fd : FatFileData} (h : fd.position = 0#32) : Bounded fd := by
  intro _ _
  rw [h]
  exact Nat.zero_le _

/-- Every open directory is bounded. -/
def AllBounded (s : FatState) : Prop := ∀ file, IsOpen s file → Bounded (s.file file)

section

variable {disk : Partition} {file : FatHandle} {s : FatState}

/-- A read stays inside the size. -/
lemma bounded_read (byteCount : Word) (h : Bounded (s.file file)) :
    Bounded ((fatRead disk file byteCount s).2.file file) := by
  intro hdir hsize
  have hread := advances_read disk file s byteCount
  rw [(frame_read disk file byteCount s).isDirectory] at hdir
  rcases hread.size with heq | heq
  · rw [heq] at hsize ⊢
    have hbound := h hdir hsize
    have hlt := (s.file file).size.isLt
    have hlength := hread.length
    rw [FatFileData.clamp, if_neg fun h => hsize h.2, toNat_wordMin,
      BitVec.toNat_sub_of_le (BitVec.le_def.mpr hbound)] at hlength
    rw [hread.position, BitVec.toNat_add, BitVec.toNat_ofNat]
    omega
  · rw [heq]

/-- A frame around one file keeps the others bounded. -/
lemma allBounded_of_frame {t : FatState} (hframe : FrameOf file s t) (hs : AllBounded s)
    (hfile : Bounded (s.file file) → Bounded (t.file file)) : AllBounded t := by
  intro file' hopen
  by_cases heq : file' = file
  · subst heq
    rw [IsOpen, hframe.opened] at hopen
    exact hfile (hs file' hopen)
  · rw [IsOpen, hframe.others file' heq] at hopen
    rw [hframe.others file' heq]
    exact hs file' hopen

lemma allBounded_read (byteCount : Word) (hs : AllBounded s) :
    AllBounded (fatRead disk file byteCount s).2 :=
  allBounded_of_frame (frame_read disk file byteCount s) hs (bounded_read byteCount)

lemma allBounded_readEntry (hs : AllBounded s) : AllBounded (fatReadEntry disk file s).2 :=
  allBounded_read 32#32 hs

lemma allBounded_openEntry (entry : FatDirectoryEntry) (hs : AllBounded s) :
    AllBounded (fatOpenEntry disk entry s).2 := by
  rcases fatOpenEntry_frame disk entry s with heq | ⟨i, -, hat⟩
  · rwa [heq]
  · intro file hopen
    by_cases heq : file = .slot i
    · rw [heq]
      exact bounded_of_position_eq_zero hat.position
    · rw [IsOpen, hat.others file heq] at hopen
      rw [hat.others file heq]
      exact hs file hopen

lemma allBounded_close (file : FatHandle) (hs : AllBounded s) : AllBounded (fatClose file s) := by
  intro file' hopen
  by_cases heq : file' = file
  · subst heq
    cases file' with
    | root => exact bounded_of_position_eq_zero rfl
    | slot i =>
        rw [IsOpen, fatClose, FatState.file_setFile_self] at hopen
        exact absurd hopen Bool.false_ne_true
  · have hsame : (fatClose file s).file file' = s.file file' := by
      cases file with
      | root => exact FatState.file_setFile_of_ne s .root file' _ heq
      | slot i => exact FatState.file_setFile_of_ne s (.slot i) file' _ heq
    rw [IsOpen, hsame] at hopen
    rw [hsame]
    exact hs file' hopen

lemma allBounded_initialized (h : Initialized disk s) : AllBounded s := by
  intro file hopen
  cases file with
  | root => exact bounded_of_position_eq_zero (by rw [FatState.file, h.root])
  | slot i =>
      rw [IsOpen, FatState.file, h.closed i] at hopen
      exact absurd hopen Bool.false_ne_true

/-- **In every state of a run** the position of an open directory stays inside its size. -/
theorem run_bounded {fuel : ℕ} {cs : List FatCall} {t : FatState} (h : Initialized disk s)
    (hrun : FatRun disk fuel s cs t) : AllBounded t :=
  hrun.invariant (P := AllBounded)
    (fun _ _ _ hs _ hstep => fatStep_invariant (fun _ _ => allBounded_readEntry)
      (fun entry _ => allBounded_openEntry entry) (fun file _ => allBounded_close file)
      (fun _ byteCount _ => allBounded_read byteCount) hs hstep)
    (allBounded_initialized h)

end

end MiqOSoft
