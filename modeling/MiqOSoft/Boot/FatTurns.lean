import MiqOSoft.Boot.FatDiskChain
import MiqOSoft.Boot.FatHandles
import MiqOSoft.Boot.FatNames
import MiqOSoft.Transition.Loop

/-!
The turns of the loop of `FAT_Open`, one for each component of the path.

* `OpenTurn`, `OpenTurn.found`, `OpenTurn.next`: a turn, the call of `FAT_OpenEntry` it comes to,
  and the turn behind it.
* `Reached.outcome_eq`: a turn that is reached has the outcome of the whole call.
* `failsCleanly_iff`: when `FAT_Open` returns `NULL`, with nothing left open, for a component that
  is not opened.
* `onlyDirectories_iff`: when `FAT_Open` looks for a component in a directory only.
-/

namespace MiqOSoft

open Machine Transition

/-! ### Turns -/

/-- What the loop of `FAT_Open` goes on with. -/
structure OpenTurn where
  path : List Byte
  name : ℕ → Byte
  current : Option FatHandle
  fat : FatState

namespace OpenTurn

variable (disk : Partition) (fuel : ℕ) (t : OpenTurn)

/-- The entry that the turn finds, and the state in which `FAT_OpenEntry` is called for it. -/
def found : Option (FatDirectoryEntry × FatState) :=
  if t.path = [] then none
  else
    match fatFindFile disk fuel t.current (passedName t.name t.path) t.fat with
    | (.found entry, s) => some (entry, fatCloseCurrent t.current s)
    | _ => none

/-- The turn after `FAT_OpenEntry`. -/
def behind (entry : FatDirectoryEntry) (s : FatState) : OpenTurn :=
  ⟨restPath t.path, componentBuffer t.name t.path, (fatOpenEntry disk entry s).1,
    (fatOpenEntry disk entry s).2⟩

/-- The next turn. -/
def next : Option OpenTurn := (t.found disk fuel).map fun found => t.behind disk found.1 found.2

/-- What the loop comes to from a turn on. -/
def outcome : OpenResult × FatState :=
  let result := fatOpenLoop disk fuel t.path.length t.path t.name t.current t.fat
  (result.1, result.2.2)

end OpenTurn

/-- The first turn of `FAT_Open`. -/
def openTurn (stack : ℕ → Byte) (path : CString) (s : FatState) : OpenTurn :=
  ⟨skipSlash path.chars, stack, some .root, s⟩

/-- `FAT_Open` comes to a turn. -/
def Reached (disk : Partition) (fuel : ℕ) (t u : OpenTurn) : Prop :=
  ∃ k, turns (OpenTurn.next disk fuel) k t = some u

section turns

variable {disk : Partition} {fuel : ℕ} {t u : OpenTurn} {entry : FatDirectoryEntry}
  {s : FatState}

/-- The loop needs no more turns than the path has characters. -/
lemma fatOpenLoop_enough {n m : ℕ} {path : List Byte} {name : ℕ → Byte}
    {current : Option FatHandle} (hn : path.length ≤ n) (hm : path.length ≤ m) :
    fatOpenLoop disk fuel n path name current s = fatOpenLoop disk fuel m path name current s := by
  induction n generalizing m path name current s with
  | zero =>
      obtain rfl := List.eq_nil_of_length_eq_zero (Nat.le_zero.mp hn)
      rw [fatOpenLoop_nil, fatOpenLoop_nil]
  | succ n ih =>
      by_cases hpath : path = []
      · rw [hpath, fatOpenLoop_nil, fatOpenLoop_nil]
      have hrest := length_restPath_lt hpath
      obtain ⟨m, rfl⟩ : ∃ m', m = m' + 1 := Nat.exists_eq_succ_of_ne_zero (by omega)
      cases heq : fatFindFile disk fuel current (passedName name path) s with
      | mk result s₁ =>
      cases result with
      | found entry =>
          rw [fatOpenLoop_found hpath heq, fatOpenLoop_found hpath heq]
          dsimp only
          rw [ih (m := m) (by omega) (by omega)]
      | absent => rw [fatOpenLoop_absent hpath heq, fatOpenLoop_absent hpath heq]
      | endless => rw [fatOpenLoop_endless hpath heq, fatOpenLoop_endless hpath heq]
      | nullHandle => rw [fatOpenLoop_nullHandle hpath heq, fatOpenLoop_nullHandle hpath heq]

lemma OpenTurn.found_iff :
    t.found disk fuel = some (entry, s) ↔ t.path ≠ [] ∧ ∃ s₁,
      fatFindFile disk fuel t.current (passedName t.name t.path) t.fat = (.found entry, s₁) ∧
        fatCloseCurrent t.current s₁ = s := by
  rw [found]
  by_cases hpath : t.path = []
  · rw [if_pos hpath]
    exact iff_of_false (fun h => nomatch h) fun h => h.1 hpath
  rw [if_neg hpath, and_iff_right hpath]
  cases heq : fatFindFile disk fuel t.current (passedName t.name t.path) t.fat with
  | mk result s₁ =>
  cases result with
  | found entry' => simp
  | absent => simp
  | endless => simp
  | nullHandle => simp

/-- A turn that comes to `FAT_OpenEntry` has the outcome of the turn behind it. -/
lemma OpenTurn.outcome_found (h : t.found disk fuel = some (entry, s)) :
    t.outcome disk fuel = (t.behind disk entry s).outcome disk fuel := by
  obtain ⟨hpath, s₁, hfind, rfl⟩ := found_iff.mp h
  have hrest := length_restPath_lt hpath
  obtain ⟨n, hn⟩ := Nat.exists_eq_succ_of_ne_zero (List.length_pos_of_ne_nil hpath).ne'
  rw [outcome, hn, fatOpenLoop_found hpath hfind, outcome, behind]
  dsimp only
  rw [fatOpenLoop_enough (n := n) (by omega) le_rfl]

/-- **A turn that is reached** has the outcome of the turn it is reached from. -/
theorem Reached.outcome_eq (h : Reached disk fuel t u) :
    u.outcome disk fuel = t.outcome disk fuel := by
  obtain ⟨k, hk⟩ := h
  refine turns_invariant (P := fun v => v.outcome disk fuel = t.outcome disk fuel)
    (fun v w hv hnext => ?_) rfl hk
  obtain ⟨⟨entry, s⟩, hfound, rfl⟩ := Option.map_eq_some_iff.mp hnext
  rw [← hv, OpenTurn.outcome_found hfound]

lemma Reached.result_eq {stack : ℕ → Byte} {path : CString}
    (h : Reached disk fuel (openTurn stack path s) t) :
    (fatOpen disk fuel stack path s).1 = (t.outcome disk fuel).1 := by
  rw [h.outcome_eq]
  rfl

/-- When `FAT_OpenEntry` is called, nothing has been opened since. -/
lemma OpenTurn.borrowed_found {base : FatState} (ht : Borrowed base t.current t.fat)
    (hfound : t.found disk fuel = some (entry, s)) : Borrowed base none s := by
  obtain ⟨-, s₁, hfind, rfl⟩ := found_iff.mp hfound
  have hsearch : Borrowed base t.current (fatFindFile disk fuel t.current
      (passedName t.name t.path) t.fat).2 := ht.findFile fuel _
  rw [hfind] at hsearch
  exact hsearch.closeCurrent

/-- On the way to a turn only the handle it goes on with has been opened. -/
lemma Reached.borrowed {base : FatState} (h : Reached disk fuel t u)
    (ht : Borrowed base t.current t.fat) : Borrowed base u.current u.fat := by
  obtain ⟨k, hk⟩ := h
  refine turns_invariant (P := fun v => Borrowed base v.current v.fat)
    (fun v w hv hnext => ?_) ht hk
  obtain ⟨⟨entry, s⟩, hfound, rfl⟩ := Option.map_eq_some_iff.mp hnext
  exact (OpenTurn.borrowed_found hv hfound).openEntry entry

end turns

/-! ### Opening a component -/

section opening

variable {disk : Partition} {fuel : ℕ} {base s : FatState} {entry : FatDirectoryEntry}
  {stack : ℕ → Byte} {path : CString} {t : OpenTurn}

/-- The first sector of an entry can be read. -/
def FirstSectorReadable (disk : Partition) (entry : FatDirectoryEntry) (s : FatState) : Prop :=
  disk.fails s.requests (fatClusterToLba s entry.firstCluster) 1 = false

/-- `FAT_OpenEntry` returns a handle exactly if a slot is free and the first sector can be read. -/
lemma fatOpenEntry_ne_none_iff :
    (fatOpenEntry disk entry s).1 ≠ none ↔
      freeHandle s ≠ none ∧ FirstSectorReadable disk entry s := by
  cases hfree : freeHandle s with
  | none =>
      rw [fatOpenEntry_full hfree]
      exact iff_of_false (fun h => h rfl) fun h => h.1 rfl
  | some i =>
      rw [and_iff_right (Option.some_ne_none i), FirstSectorReadable]
      have hrequests : (entryState entry i s).requests = s.requests := rfl
      have hlba : fatClusterToLba (entryState entry i s)
          (entry.fileData (s.openedFiles i)).currentCluster
            = fatClusterToLba s entry.firstCluster := rfl
      cases hfails : disk.fails s.requests (fatClusterToLba s entry.firstCluster) 1 with
      | true =>
          rw [← hrequests, ← hlba] at hfails
          rw [fatOpenEntry_fails hfree (fatReadBuffer_of_fails hfails)]
          exact iff_of_false (fun h => h rfl) (fun h => nomatch h)
      | false =>
          rw [← hrequests, ← hlba] at hfails
          rw [fatOpenEntry_opens hfree (fatReadBuffer_of_not_fails hfails)]
          exact iff_of_true (Option.some_ne_none _) rfl

/-- Whether a slot is free depends on the slots in use only. -/
lemma freeHandle_congr (h : ∀ i, s.inUse i = base.inUse i) : freeHandle s = freeHandle base := by
  have hopened : ∀ i, (s.openedFiles i).opened = (base.openedFiles i).opened := h
  simp only [freeHandle, hopened]

/-- When `FAT_OpenEntry` is called, the slots in use are those from before `FAT_Open`. -/
lemma Reached.freeHandle_eq (h : Reached disk fuel (openTurn stack path base) t)
    (hfound : t.found disk fuel = some (entry, s)) : freeHandle s = freeHandle base := by
  have hborrowed : Borrowed base none s :=
    OpenTurn.borrowed_found (h.borrowed (borrowed_root base)) hfound
  exact freeHandle_congr fun i => hborrowed.others i (fun h => nomatch h)

/-- A turn whose component is not there ends the loop. -/
lemma OpenTurn.outcome_absent (hpath : t.path ≠ [])
    (hfind : (fatFindFile disk fuel t.current (passedName t.name t.path) t.fat).1 = .absent) :
    (t.outcome disk fuel).1 = .null := by
  obtain ⟨n, hn⟩ := Nat.exists_eq_succ_of_ne_zero (List.length_pos_of_ne_nil hpath).ne'
  rw [outcome, hn, fatOpenLoop_absent hpath (Prod.ext hfind rfl)]

/-- A turn that has no handle returns it if nothing is left of the path, and searches through it
otherwise. -/
lemma OpenTurn.outcome_none (hcurrent : t.current = none) :
    (t.outcome disk fuel).1 = if t.path = [] then .null else .nullHandle := by
  by_cases hpath : t.path = []
  · rw [if_pos hpath, outcome, hpath, fatOpenLoop_nil, hcurrent]
    rfl
  · obtain ⟨n, hn⟩ := Nat.exists_eq_succ_of_ne_zero (List.length_pos_of_ne_nil hpath).ne'
    have hfind : fatFindFile disk fuel t.current (passedName t.name t.path) t.fat
        = (.nullHandle, t.fat) := by
      rw [hcurrent]
      rfl
    rw [if_neg hpath, outcome, hn, fatOpenLoop_nullHandle hpath hfind]

/-- If `FAT_OpenEntry` fails on a component with more of the path behind it, `FAT_Open` searches
through `NULL`. -/
lemma Reached.nullHandle (h : Reached disk fuel (openTurn stack path base) t)
    (hfound : t.found disk fuel = some (entry, s)) (hrest : restPath t.path ≠ [])
    (hnone : (fatOpenEntry disk entry s).1 = none) :
    (fatOpen disk fuel stack path base).1 = .nullHandle := by
  rw [h.result_eq, OpenTurn.outcome_found hfound, OpenTurn.outcome_none hnone]
  exact if_neg hrest

end opening

/-! ### Failures -/

/-- The component of the turn is not opened: it is not there, or no slot is free for it, or its
first sector cannot be read. -/
def OpenTurn.Fails (disk : Partition) (fuel : ℕ) (t : OpenTurn) : Prop :=
  t.path ≠ [] ∧
    ((fatFindFile disk fuel t.current (passedName t.name t.path) t.fat).1 = .absent ∨
      ∃ entry s, t.found disk fuel = some (entry, s) ∧ (fatOpenEntry disk entry s).1 = none)

/-- If a component is not opened, `FAT_Open` returns `NULL`, without a search through it, and leaves
the same slots open. -/
def FailsCleanly (disk : Partition) (fuel : ℕ) (stack : ℕ → Byte) (path : CString)
    (s : FatState) : Prop :=
  (∃ t, Reached disk fuel (openTurn stack path s) t ∧ t.Fails disk fuel) →
    (fatOpen disk fuel stack path s).1 = .null ∧
      ∀ i, (fatOpen disk fuel stack path s).2.2.inUse i = s.inUse i

/-- **When `FAT_Open` fails cleanly**: exactly if every component that is found, with more of the
path behind it, has a slot and a first sector that can be read. -/
theorem failsCleanly_iff (disk : Partition) (fuel : ℕ) (stack : ℕ → Byte) (path : CString)
    (s : FatState) :
    FailsCleanly disk fuel stack path s ↔
      ∀ t entry u, Reached disk fuel (openTurn stack path s) t →
        t.found disk fuel = some (entry, u) → restPath t.path ≠ [] →
          freeHandle s ≠ none ∧ FirstSectorReadable disk entry u := by
  constructor
  · intro hclean t entry u ht hfound hrest
    rw [← ht.freeHandle_eq hfound, ← fatOpenEntry_ne_none_iff]
    intro hnone
    have hpath := (OpenTurn.found_iff.mp hfound).1
    obtain ⟨hnull, -⟩ := hclean ⟨t, ht, hpath, .inr ⟨entry, u, hfound, hnone⟩⟩
    rw [ht.nullHandle hfound hrest hnone] at hnull
    cases hnull
  · rintro hopens ⟨t, ht, hpath, hfails⟩
    have hnull : (fatOpen disk fuel stack path s).1 = .null := by
      rw [ht.result_eq]
      rcases hfails with habsent | ⟨entry, u, hfound, hnone⟩
      · exact OpenTurn.outcome_absent hpath habsent
      · have hrest : restPath t.path = [] := by
          by_contra hrest
          have hopen := hopens t entry u ht hfound hrest
          rw [← ht.freeHandle_eq hfound, ← fatOpenEntry_ne_none_iff] at hopen
          exact hopen hnone
        rw [OpenTurn.outcome_found hfound, OpenTurn.outcome_none hnone]
        exact if_pos hrest
    have hborrowed : Borrowed s none (fatOpen disk fuel stack path s).2.2 := borrowed_open hnull
    exact ⟨hnull, fun i => hborrowed.others i (fun h => nomatch h)⟩

/-! ### Components in a regular file -/

/-- The entry has the directory attribute. -/
def FatDirectoryEntry.IsDirectory (entry : FatDirectoryEntry) : Prop :=
  entry.attributes &&& FAT_ATTRIBUTE_DIRECTORY ≠ 0#8

/-- Only directories are searched: a handle is returned only if every component with more of the
path behind it was found with the directory attribute; for such a component that is a regular file
the result is `NULL`, and no directory entry is read from the file. -/
structure OnlyDirectories (disk : Partition) (fuel : ℕ) (stack : ℕ → Byte) (path : CString)
    (s : FatState) : Prop where
  handle : ∀ file, (fatOpen disk fuel stack path s).1 = .handle file →
    ∀ t entry u, Reached disk fuel (openTurn stack path s) t →
      t.found disk fuel = some (entry, u) → restPath t.path ≠ [] → entry.IsDirectory
  null : ∀ t entry u, Reached disk fuel (openTurn stack path s) t →
    t.found disk fuel = some (entry, u) → restPath t.path ≠ [] → ¬entry.IsDirectory →
      (fatOpen disk fuel stack path s).1 = .null
  contents : ∀ t entry u, Reached disk fuel (openTurn stack path s) t →
    t.found disk fuel = some (entry, u) → restPath t.path ≠ [] → ¬entry.IsDirectory →
      ∀ file v, fatOpenEntry disk entry u = (some file, v) → (fatReadEntry disk file v).1 = none

section contents

variable {disk : Partition} {entry : FatDirectoryEntry} {file : FatHandle} {u v : FatState}

/-- A regular file just opened delivers a directory entry exactly if it has the length of one. -/
lemma fatReadEntry_opened (hdir : ¬entry.IsDirectory)
    (hopen : fatOpenEntry disk entry u = (some file, v)) :
    (fatReadEntry disk file v).1 = none ↔ entry.size.toNat < 32 := by
  obtain ⟨i, rfl⟩ := fatOpenEntry_slot (congrArg Prod.fst hopen)
  have hopened := opened_of_openEntry hopen
  have hregular : ¬((v.file (.slot i)).isDirectory = true) := by
    rw [FatState.file, hopened.isDirectory, decide_eq_true_eq]
    exact hdir
  have hposition : (v.file (.slot i)).position = 0#32 := hopened.position
  have hclamp : (v.file (.slot i)).clamp 32#32 = wordMin 32#32 entry.size := by
    have hsize : (v.file (.slot i)).size = entry.size := hopened.size
    rw [FatFileData.clamp, if_neg fun h => hregular h.1, hposition, hsize, BitVec.sub_zero]
  have hcount : ((v.file (.slot i)).clamp 32#32).toNat = min 32 entry.size.toNat := by
    rw [hclamp, toNat_wordMin]
    rfl
  have hread : fatRead disk (.slot i) 32#32 v = _ := fatRead_within (by
    rw [hcount, hposition, BitVec.toNat_ofNat]
    omega)
  by_cases hshort : entry.size.toNat < 32
  · rw [fatReadEntry_of_short hread (by rw [length_taken, hcount]; omega)]
    exact iff_of_true rfl hshort
  · rw [fatReadEntry_of_read hread (by rw [length_taken, hcount]; omega)]
    exact iff_of_false (Option.some_ne_none _) hshort

/-- A search that finds nothing in a regular file just opened. -/
lemma fatFindFile_opened {fuel : ℕ} (name : List Byte) (hfuel : fuel ≠ 0)
    (hnone : (fatReadEntry disk file v).1 = none) :
    (fatFindFile disk fuel (some file) name v).1 = .absent := by
  obtain ⟨n, rfl⟩ := Nat.exists_eq_succ_of_ne_zero hfuel
  have hread : fatReadEntry disk file v = (none, (fatReadEntry disk file v).2) :=
    Prod.ext hnone rfl
  rw [fatFindFile, fatFindLoop, hread]

/-- A turn that finds an entry looks at one at least. -/
lemma OpenTurn.fuel_ne_zero {fuel : ℕ} {t : OpenTurn} {s : FatState}
    (h : t.found disk fuel = some (entry, s)) : fuel ≠ 0 := by
  rintro rfl
  obtain ⟨-, s₁, hfind, -⟩ := found_iff.mp h
  cases hcurrent : t.current with
  | none =>
      rw [hcurrent] at hfind
      cases hfind
  | some file =>
      rw [hcurrent] at hfind
      cases hfind

end contents

/-- **When `FAT_Open` searches directories only**: exactly if every regular file that is found with
more of the path behind it is too short for a directory entry, and has a slot and a first sector
that can be read. -/
theorem onlyDirectories_iff (disk : Partition) (fuel : ℕ) (stack : ℕ → Byte) (path : CString)
    (s : FatState) :
    OnlyDirectories disk fuel stack path s ↔
      ∀ t entry u, Reached disk fuel (openTurn stack path s) t →
        t.found disk fuel = some (entry, u) → restPath t.path ≠ [] → ¬entry.IsDirectory →
          entry.size.toNat < 32 ∧ freeHandle s ≠ none ∧ FirstSectorReadable disk entry u := by
  constructor
  · intro honly t entry u ht hfound hrest hdir
    rw [← ht.freeHandle_eq hfound, ← fatOpenEntry_ne_none_iff]
    have hopen : (fatOpenEntry disk entry u).1 ≠ none := fun hnone => by
      have hnull := honly.null t entry u ht hfound hrest hdir
      rw [ht.nullHandle hfound hrest hnone] at hnull
      cases hnull
    obtain ⟨file, hfile⟩ := Option.ne_none_iff_exists'.mp hopen
    have hcall : fatOpenEntry disk entry u = (some file, (fatOpenEntry disk entry u).2) :=
      Prod.ext hfile rfl
    have hnone := honly.contents t entry u ht hfound hrest hdir file _ hcall
    exact ⟨(fatReadEntry_opened hdir hcall).mp hnone, hopen⟩
  · intro hshort
    have hnull : ∀ t entry u, Reached disk fuel (openTurn stack path s) t →
        t.found disk fuel = some (entry, u) → restPath t.path ≠ [] → ¬entry.IsDirectory →
          (fatOpen disk fuel stack path s).1 = .null := by
      intro t entry u ht hfound hrest hdir
      obtain ⟨hsize, hopen⟩ := hshort t entry u ht hfound hrest hdir
      rw [← ht.freeHandle_eq hfound, ← fatOpenEntry_ne_none_iff] at hopen
      obtain ⟨file, hfile⟩ := Option.ne_none_iff_exists'.mp hopen
      have hcall : fatOpenEntry disk entry u = (some file, (fatOpenEntry disk entry u).2) :=
        Prod.ext hfile rfl
      rw [ht.result_eq, OpenTurn.outcome_found hfound]
      refine OpenTurn.outcome_absent hrest ?_
      rw [OpenTurn.behind, hfile]
      exact fatFindFile_opened _ (OpenTurn.fuel_ne_zero hfound)
        ((fatReadEntry_opened hdir hcall).mpr hsize)
    refine ⟨fun file hhandle t entry u ht hfound hrest => ?_, hnull,
      fun t entry u ht hfound hrest hdir file v hcall => ?_⟩
    · by_contra hdir
      rw [hnull t entry u ht hfound hrest hdir] at hhandle
      cases hhandle
    · exact (fatReadEntry_opened hdir hcall).mpr (hshort t entry u ht hfound hrest hdir).1

/-- A FAT12 volume with a file `NOTES`, whose 64 bytes are those of a directory entry `SECRET`. -/
def notesDisk : Partition :=
  Partition.image 64 [
    (0, 11, [0x00#8, 0x02#8, 0x01#8, 0x01#8, 0x00#8, 0x01#8, 0x10#8, 0x00#8, 0x40#8, 0x00#8,
      0xF0#8, 0x01#8, 0x00#8]),
    (1, 0, [0xF0#8, 0xFF#8, 0xFF#8, 0xFF#8, 0xFF#8, 0xFF#8]),
    (2, 0, ascii "NOTES      " ++ [0x20#8]),
    (2, 26, [0x02#8, 0x00#8, 0x40#8, 0x00#8]),
    (3, 0, ascii "SECRET     " ++ [0x20#8]),
    (3, 26, [0x03#8, 0x00#8, 0x05#8, 0x00#8])]

/-- The state after `FAT_Initialize`. -/
def notesState : FatState := (fatInitialize notesDisk blankState).2

/-- A path through the file. -/
def notesPath : CString := ⟨ascii "notes/secret", by decide⟩

/-- **A file that is searched as a directory**: the path `notes/secret` is opened, although `NOTES`
is a regular file. -/
theorem not_onlyDirectories_notesDisk :
    fatInitialize notesDisk blankState = (some true, notesState) ∧
      (fatOpen notesDisk 40 (fun _ => 0#8) notesPath notesState).1 = .handle (.slot 0) ∧
      ¬OnlyDirectories notesDisk 40 (fun _ => 0#8) notesPath notesState := by
  have hready : (fatInitialize notesDisk blankState).1 = some true := by decide +kernel
  have hopen : (fatOpen notesDisk 40 (fun _ => 0#8) notesPath notesState).1
      = .handle (.slot 0) := by
    decide +kernel
  refine ⟨Prod.ext hready rfl, hopen, fun honly => ?_⟩
  have hname : (((openTurn (fun _ => 0#8) notesPath notesState).found notesDisk 40).map
      fun found => found.1.attributes) = some 0x20#8 := by
    decide +kernel
  obtain ⟨⟨entry, u⟩, hfound, hattributes⟩ := Option.map_eq_some_iff.mp hname
  have hdir := honly.handle _ hopen _ entry u ⟨0, rfl⟩ hfound (by decide)
  rw [FatDirectoryEntry.IsDirectory, hattributes] at hdir
  exact hdir (by decide)

end MiqOSoft
