import Mathlib.Logic.Relation
import MiqOSoft.Kernel.VfsTables
import MiqOSoft.Shell.RamFs
import MiqOSoft.Transition.Run

/-!
What the calls of the RAM file system do.

* `shellStrncpy_apply`: `shell_strncpy` in closed form.  A stored name is the first 31
  characters of the name it was assigned (`FileName.text_assign`).
* `Entry`: the slot holds an entry of a directory under a stored name.  A lookup finds such a
  slot, or there is none (`entry_of_find`, `not_entry_of_find`).
* `ramfsCreate_file`, `ramfsDelete_found`, …: the functions on each of their paths.
* `Action`: the actions that calls are made of, within a `Scope` of the names they give to new
  entries and the slots they change.  A call is a sequence of them (`Shell.call_actions`), so a
  property that every action keeps holds in every state of a run (`Shell.run_invariant`).
-/

namespace MiqOSoft

open Machine Transition

variable {σ : Type*}

/-! ### Strings -/

lemma strncpyPad_apply (n d : ℕ) (dest : ℕ → Byte) (k : ℕ) :
    strncpyPad n d dest k = if d ≤ k ∧ k < d + n then 0#8 else dest k := by
  induction n generalizing d dest with
  | zero => rw [strncpyPad, if_neg (by omega)]
  | succ n ih =>
      rw [strncpyPad, ih]
      by_cases hk : k = d
      · subst hk
        rw [if_neg (by omega), if_pos (by omega), Function.update_self]
      · rw [Function.update_of_ne hk]
        exact if_congr (by omega) rfl rfl

/-- The two loops of `shell_strncpy`, from a position the characters reach. -/
lemma strncpy_loops (src : CString) (n d : ℕ) (hd : d ≤ src.chars.length) (dest : ℕ → Byte)
    (k : ℕ) :
    strncpyPad (strncpyCopy src n d dest).2.2 (strncpyCopy src n d dest).2.1
        (strncpyCopy src n d dest).1 k
      = if d ≤ k ∧ (k < d + n ∨ k = d + n ∧ src.chars.length < d + n) then src.byte k
        else dest k := by
  induction n generalizing d dest with
  | zero =>
      rw [strncpyCopy, strncpyPad, if_neg (by omega)]
  | succ n ih =>
      by_cases hz : src.byte d = 0#8
      · have hlen : src.chars.length = d := by
          by_contra hne
          exact src.byte_ne_zero (by omega) hz
        simp only [strncpyCopy, hz, ↓reduceIte, strncpyPad_apply]
        by_cases hk : k = d
        · subst hk
          rw [if_neg (by omega), Function.update_self, if_pos (by omega), hz]
        · rw [Function.update_of_ne hk]
          by_cases hin : d + 1 ≤ k ∧ k < d + 1 + (n + 1)
          · rw [if_pos hin, if_pos (by omega), src.byte_of_length_le (by omega)]
          · rw [if_neg hin, if_neg (by omega)]
      · have hlt : d < src.chars.length := by
          by_contra hge
          exact hz (src.byte_of_length_le (by omega))
        simp only [strncpyCopy, hz, ↓reduceIte]
        rw [ih (d + 1) (by omega)]
        by_cases hk : k = d
        · subst hk
          rw [if_neg (by omega), if_pos (by omega), Function.update_self]
        · rw [Function.update_of_ne hk]
          exact if_congr (by omega) rfl rfl

/-- **`shell_strncpy` in closed form**: the first `n` characters, with NULs for those behind the
end of the source, and one NUL more if the source ends in front of them. -/
theorem shellStrncpy_apply (dest : ℕ → Byte) (src : CString) (n k : ℕ) :
    shellStrncpy dest src n k
      = if k < n ∨ k = n ∧ src.chars.length < n then src.byte k else dest k := by
  rw [shellStrncpy, strncpy_loops src n 0 (Nat.zero_le _)]
  exact if_congr (by omega) rfl rfl

namespace FileName

/-- The characters of a stored name, up to its first NUL. -/
def text (n : FileName) : List Byte := textOf (List.ofFn n.chars)

lemma text_length_lt (n : FileName) : n.text.length < 32 := by
  by_contra hge
  have hlen : n.text.length = 32 := by
    have := (List.takeWhile_sublist (l := List.ofFn n.chars)
      fun c => decide (c ≠ 0#8)).length_le
    rw [List.length_ofFn] at this
    exact le_antisymm this (not_lt.mp hge)
  -- then no character is NUL, not even the last
  have hall : List.ofFn n.chars = n.text :=
    ((List.takeWhile_sublist _).eq_of_length (by rw [List.length_ofFn]; exact hlen)).symm
  refine zero_notMem_textOf (List.ofFn n.chars) ?_
  change 0#8 ∈ n.text
  rw [← hall, List.mem_ofFn]
  exact ⟨31, n.terminated⟩

lemma byte_eq (n : FileName) {k : ℕ} (hk : k ≤ n.text.length) :
    n.byte k = n.text.getD k 0#8 := by
  have := n.text_length_lt
  rw [text, ← getD_textOf hk, List.getD_eq_getElem _ _ (by simp; omega), List.getElem_ofFn, byte,
    dif_pos (by omega)]

/-- A comparison with a stored name compares its text. -/
lemma shellStrcmp_eq_zero_iff (n : FileName) (name : CString) :
    shellStrcmp n.byte name = 0 ↔ n.text = name.chars :=
  strcmp_eq_zero_iff (zero_notMem_textOf _) name.noNul fun _ hk => n.byte_eq hk

/-- **What is stored of a name** is its first 31 characters. -/
theorem text_assign (old : FileName) (name : CString) :
    (old.assign name).text = name.chars.take 31 := by
  refine textOf_eq (fun h => name.noNul (List.mem_of_mem_take h)) (by simp) fun k hk => ?_
  rw [List.length_take] at hk
  rw [List.getD_eq_getElem _ _ (by simp; omega), List.getElem_ofFn]
  simp only [assign]
  by_cases h31 : k = 31
  · subst h31
    rw [List.getD_eq_default _ _ (by simp)]
    rfl
  · rw [if_neg (by rw [Fin.ext_iff]; exact h31), shellStrncpy_apply, if_pos (by omega),
      CString.byte, List.getD_eq_getElem?_getD, List.getD_eq_getElem?_getD,
      List.getElem?_take_of_lt (by omega)]

lemma text_assign_of_le (old : FileName) {name : CString} (h : name.chars.length ≤ 31) :
    (old.assign name).text = name.chars := by
  rw [text_assign, List.take_of_length_le h]

end FileName

/-! ### Lookups -/

/-- Slot `i` holds an entry of the directory `dir` whose stored name is `text`. -/
def Entry (fs : RamFs) (i dir : Fin 64) (text : List Byte) : Prop :=
  (fs.files i).inUse = true ∧ (fs.files i).parentIndex = dir ∧ (fs.files i).name.text = text

section Lookup

variable {fs : RamFs} {name : CString} {dir i : Fin 64}

lemma entry_iff :
    ((fs.files i).inUse && decide ((fs.files i).parentIndex = dir) &&
      decide (shellStrcmp (fs.files i).name.byte name = 0)) = true ↔
      Entry fs i dir name.chars := by
  rw [Bool.and_eq_true, Bool.and_eq_true, decide_eq_true_iff, decide_eq_true_iff,
    FileName.shellStrcmp_eq_zero_iff, Entry, and_assoc]

/-- A lookup that succeeds finds an entry of the name. -/
lemma entry_of_find (h : ramfsFindFile name dir fs = some i) : Entry fs i dir name.chars := by
  have hp := List.find?_some h
  exact entry_iff.mp hp

/-- A lookup that fails leaves no entry of the name. -/
lemma not_entry_of_find (h : ramfsFindFile name dir fs = none) (j : Fin 64) :
    ¬Entry fs j dir name.chars := fun he =>
  List.find?_eq_none.mp h j (List.mem_finRange j) (entry_iff.mpr he)

lemma exists_find (h : Entry fs i dir name.chars) : ∃ j, ramfsFindFile name dir fs = some j := by
  cases hfind : ramfsFindFile name dir fs with
  | some j => exact ⟨j, rfl⟩
  | none => exact absurd h (not_entry_of_find hfind i)

/-- The only entry of a name is found. -/
lemma find_eq_some (h : Entry fs i dir name.chars)
    (huniq : ∀ j, Entry fs j dir name.chars → j = i) : ramfsFindFile name dir fs = some i := by
  obtain ⟨j, hj⟩ := exists_find h
  rw [hj, huniq j (entry_of_find hj)]

lemma free_of_findFreeSlot (h : ramfsFindFreeSlot fs = some i) : (fs.files i).inUse = false := by
  have := List.find?_some h
  rwa [Bool.not_eq_true'] at this

lemma hasEntry_iff : hasEntry i fs = true ↔
    ∃ j, (fs.files j).inUse = true ∧ (fs.files j).parentIndex = i := by
  simp [hasEntry]

end Lookup

/-! ### The functions on their paths -/

section Paths

variable {S : SysCalls σ} {s : Shell σ} {name : CString} {isDirectory : Word} {slot i : Fin 64}

@[simp] lemma ramfsInit_of_initialized (h : s.ramfs.initialized = true) : ramfsInit s = s :=
  if_pos h

/-- The entry that `ramfs_create` puts into a slot. -/
def newFile (old : RamFile) (name : CString) (data : Addr) (capacity isDirectory : Word)
    (dir : Fin 64) : RamFile :=
  ⟨old.name.assign name, data, 0#32, capacity, isDirectory, dir, true⟩

/-- The table and the trace with a new entry. -/
def Shell.link (s : Shell σ) (slot : Fin 64) (name : CString) (f : RamFile) : Shell σ :=
  { s with
    ramfs := { s.ramfs with
      files := Function.update s.ramfs.files slot f
      fileCount := s.ramfs.fileCount + 1#32 }
    trace := .created slot name s.ramfs.currentDir :: s.trace }

/-- The table and the trace without an entry. -/
def Shell.unlink (s : Shell σ) (i : Fin 64) : Shell σ :=
  { s with
    ramfs := { s.ramfs with
      files := Function.update s.ramfs.files i RamFile.zero
      fileCount := s.ramfs.fileCount - 1#32 }
    trace := .deleted i :: s.trace }

lemma ramfsCreate_exists (hinit : s.ramfs.initialized = true)
    (hfind : ramfsFindFile name s.ramfs.currentDir s.ramfs = some i) :
    ramfsCreate S name isDirectory s = (.error (-1#32), s) := by
  simp [ramfsCreate, hinit, hfind]

lemma ramfsCreate_full (hinit : s.ramfs.initialized = true)
    (hfind : ramfsFindFile name s.ramfs.currentDir s.ramfs = none)
    (hslot : ramfsFindFreeSlot s.ramfs = none) :
    ramfsCreate S name isDirectory s = (.error (-2#32), s) := by
  simp [ramfsCreate, hinit, hfind, hslot]

lemma ramfsCreate_noMemory (hinit : s.ramfs.initialized = true)
    (hfind : ramfsFindFile name s.ramfs.currentDir s.ramfs = none)
    (hslot : ramfsFindFreeSlot s.ramfs = some slot) (hnull : (s.malloc S 256#32).1 = NULL) :
    ramfsCreate S name 0#32 s = (.error (-3#32), (s.malloc S 256#32).2.setFile slot
      { s.file slot with name := (s.file slot).name.assign name, data := NULL }) := by
  have hnull' : ((s.setFile slot { s.file slot with
      name := (s.file slot).name.assign name }).malloc S 256#32).1 = NULL := hnull
  simp only [ramfsCreate, ramfsInit_of_initialized hinit, hfind, hslot, ↓reduceIte, hnull']
  simp [Shell.file, Shell.setFile, Shell.malloc]

lemma ramfsCreate_file (hinit : s.ramfs.initialized = true)
    (hfind : ramfsFindFile name s.ramfs.currentDir s.ramfs = none)
    (hslot : ramfsFindFreeSlot s.ramfs = some slot) (hmem : (s.malloc S 256#32).1 ≠ NULL) :
    ramfsCreate S name 0#32 s = (.ok slot,
      ((s.malloc S 256#32).2.storeNul (s.malloc S 256#32).1 256#32 0#32).link slot name
        (newFile (s.file slot) name (s.malloc S 256#32).1 256#32 0#32 s.ramfs.currentDir)) := by
  have hmem' : ((s.setFile slot { s.file slot with
      name := (s.file slot).name.assign name }).malloc S 256#32).1 ≠ NULL := hmem
  simp only [ramfsCreate, ramfsInit_of_initialized hinit, hfind, hslot, ↓reduceIte, hmem']
  simp [Shell.file, Shell.setFile, Shell.malloc, Shell.storeNul, linkFile, Shell.link, newFile]

lemma ramfsCreate_directory (hinit : s.ramfs.initialized = true)
    (hfind : ramfsFindFile name s.ramfs.currentDir s.ramfs = none)
    (hslot : ramfsFindFreeSlot s.ramfs = some slot) (hdir : isDirectory ≠ 0#32) :
    ramfsCreate S name isDirectory s = (.ok slot, s.link slot name
      (newFile (s.file slot) name NULL 0#32 isDirectory s.ramfs.currentDir)) := by
  simp only [ramfsCreate, ramfsInit_of_initialized hinit, hfind, hslot, hdir, ↓reduceIte]
  simp [Shell.file, Shell.setFile, linkFile, Shell.link, newFile]

lemma ramfsDelete_missing (hfind : ramfsFindFile name s.ramfs.currentDir s.ramfs = none) :
    ramfsDelete S name s = (-1#32, s) := by
  simp [ramfsDelete, hfind]

lemma ramfsDelete_notEmpty (hfind : ramfsFindFile name s.ramfs.currentDir s.ramfs = some i)
    (h : (s.file i).isDirectory ≠ 0#32 ∧ hasEntry i s.ramfs = true) :
    ramfsDelete S name s = (-2#32, s) := by
  simp only [ramfsDelete, hfind, if_pos h]

/-- The release of the buffer of a file that is deleted. -/
def Shell.release (S : SysCalls σ) (i : Fin 64) (s : Shell σ) : Shell σ :=
  if (s.file i).data = NULL then s else s.free S (s.file i).data

lemma Shell.release_ramfs : (s.release S i).ramfs = s.ramfs := by
  rw [release]
  split <;> rfl

lemma ramfsDelete_found (hfind : ramfsFindFile name s.ramfs.currentDir s.ramfs = some i)
    (h : ¬((s.file i).isDirectory ≠ 0#32 ∧ hasEntry i s.ramfs = true)) :
    ramfsDelete S name s = (0#32, (s.release S i).unlink i) := by
  simp only [ramfsDelete, hfind, if_neg h]
  rfl

lemma ramfsWriteFile_error {code : Word} {s' : Shell σ} {data : ℕ → Byte} {size : Word}
    (h : findOrCreate S name s = (.error code, s')) :
    ramfsWriteFile S name data size s = (code, s') := by
  simp only [ramfsWriteFile, h]

lemma ramfsWriteFile_directory {s' : Shell σ} {data : ℕ → Byte} {size : Word}
    (h : findOrCreate S name s = (.ok i, s')) (hdir : (s'.file i).isDirectory ≠ 0#32) :
    ramfsWriteFile S name data size s = (-1#32, s') := by
  simp only [ramfsWriteFile, h, if_pos hdir]

lemma ramfsWriteFile_noMemory {s' s'' : Shell σ} {data : ℕ → Byte} {size : Word}
    (h : findOrCreate S name s = (.ok i, s')) (hreg : (s'.file i).isDirectory = 0#32)
    (hgrow : expandBuffer S i size s' = (false, s'')) :
    ramfsWriteFile S name data size s = (-3#32, s'') := by
  simp only [ramfsWriteFile, h, hreg, ne_eq, not_true_eq_false, ↓reduceIte, hgrow]

lemma ramfsWriteFile_file {s' s'' : Shell σ} {data : ℕ → Byte} {size : Word}
    (h : findOrCreate S name s = (.ok i, s')) (hreg : (s'.file i).isDirectory = 0#32)
    (hgrow : expandBuffer S i size s' = (true, s'')) :
    ramfsWriteFile S name data size s = (size, fillFile i data size s'') := by
  simp only [ramfsWriteFile, h, hreg, ne_eq, not_true_eq_false, ↓reduceIte, hgrow]

/-- The capacity a buffer grows to for `size` bytes. -/
def grownCapacity (size : Word) : Word := (size + 255#32) / 256#32 * 256#32

/-- A file after its buffer has grown. -/
def Shell.grown (S : SysCalls σ) (i : Fin 64) (size : Word) (s : Shell σ) : Shell σ :=
  let file := s.file i
  let r := s.malloc S (grownCapacity size)
  let s :=
    if file.data = NULL then r.2
    else (r.2.copyOver r.1 (grownCapacity size) file.data file.size).free S file.data
  s.setFile i { file with data := r.1, capacity := grownCapacity size }

lemma expandBuffer_enough {size : Word} (h : ¬(s.file i).capacity < size) :
    expandBuffer S i size s = (true, s) := by
  simp only [expandBuffer, if_neg h]

lemma expandBuffer_noMemory {size : Word} (h : (s.file i).capacity < size)
    (hnull : (s.malloc S (grownCapacity size)).1 = NULL) :
    expandBuffer S i size s = (false, (s.malloc S (grownCapacity size)).2) := by
  simp only [grownCapacity] at hnull
  simp only [expandBuffer, if_pos h, hnull, ↓reduceIte, grownCapacity]

lemma expandBuffer_grown {size : Word} (h : (s.file i).capacity < size)
    (hmem : (s.malloc S (grownCapacity size)).1 ≠ NULL) :
    expandBuffer S i size s = (true, s.grown S i size) := by
  simp only [grownCapacity] at hmem
  simp only [expandBuffer, if_pos h, if_neg hmem, Shell.grown, grownCapacity]

/-- Rounding up gives a multiple of 256 that is large enough, unless it wraps to 0. -/
lemma grownCapacity_cases (size : Word) : (grownCapacity size).toNat % 256 = 0 ∧
    (grownCapacity size = 0#32 ∧ 0xFFFFFF00 < size.toNat ∨ size ≤ grownCapacity size) := by
  have hval : (grownCapacity size).toNat = (size.toNat + 255) % 2 ^ 32 / 256 * 256 := by
    have hle := Nat.div_mul_le_self ((size.toNat + 255) % 2 ^ 32) 256
    rw [grownCapacity, BitVec.toNat_mul, BitVec.toNat_udiv, BitVec.toNat_add]
    simp only [BitVec.reduceToNat]
    omega
  have hlt := size.isLt
  refine ⟨by omega, ?_⟩
  by_cases hbig : 0xFFFFFF00 < size.toNat
  · exact Or.inl ⟨BitVec.eq_of_toNat_eq (by rw [hval]; simp; omega), hbig⟩
  · exact Or.inr (BitVec.le_def.mpr (by omega))

end Paths

/-! ### Actions -/

/-- Which names actions may give to new entries, which slots they may write or delete, and how
many bytes they may write. -/
structure Scope where
  named : CString → Prop
  may : Fin 64 → Prop
  sized : Word → Prop

/-- All names, slots and sizes. -/
def Scope.all : Scope := ⟨fun _ => True, fun _ => True, fun _ => True⟩

/-- The actions that the calls of the file system are made of. -/
inductive Action (S : SysCalls σ) (G : Scope) (s : Shell σ) : Shell σ → Prop
  | noMemory (size : Word) (hnull : (s.malloc S size).1 = NULL) :
      Action S G s (s.malloc S size).2
  | scratch (slot : Fin 64) (f : RamFile) (hfree : (s.file slot).inUse = false)
      (hf : f.inUse = false) (hdata : f.data = NULL) : Action S G s (s.setFile slot f)
  | createFile (name : CString) (slot : Fin 64) (hname : G.named name)
      (hfind : ramfsFindFile name s.ramfs.currentDir s.ramfs = none)
      (hfree : (s.file slot).inUse = false) (hmem : (s.malloc S 256#32).1 ≠ NULL) :
      Action S G s
        (((s.malloc S 256#32).2.storeNul (s.malloc S 256#32).1 256#32 0#32).link slot name
          (newFile (s.file slot) name (s.malloc S 256#32).1 256#32 0#32 s.ramfs.currentDir))
  | createDirectory (name : CString) (slot : Fin 64) (isDirectory : Word)
      (hname : G.named name)
      (hfind : ramfsFindFile name s.ramfs.currentDir s.ramfs = none)
      (hfree : (s.file slot).inUse = false) (hdir : isDirectory ≠ 0#32) :
      Action S G s (s.link slot name
        (newFile (s.file slot) name NULL 0#32 isDirectory s.ramfs.currentDir))
  | delete (i : Fin 64) (hmay : G.may i) (huse : (s.file i).inUse = true)
      (hparent : (s.file i).parentIndex = s.ramfs.currentDir)
      (hempty : (s.file i).isDirectory = 0#32 ∨
        ∀ j, (s.file j).inUse = true → (s.file j).parentIndex ≠ i) :
      Action S G s ((s.release S i).unlink i)
  | grow (i : Fin 64) (size : Word) (hmay : G.may i) (hsized : G.sized size)
      (huse : (s.file i).inUse = true)
      (hreg : (s.file i).isDirectory = 0#32) (hcap : (s.file i).capacity < size)
      (hmem : (s.malloc S (grownCapacity size)).1 ≠ NULL) : Action S G s (s.grown S i size)
  | fill (i : Fin 64) (data : ℕ → Byte) (size : Word) (hmay : G.may i) (hsized : G.sized size)
      (huse : (s.file i).inUse = true) (hreg : (s.file i).isDirectory = 0#32)
      (hsize : (s.file i).capacity = 0#32 ∨ size ≤ (s.file i).capacity) :
      Action S G s (fillFile i data size s)
  | chdir (dir : Fin 64) (hdir : dir = 0 ∨ dir = (s.file s.ramfs.currentDir).parentIndex ∨
        (s.file dir).inUse = true ∧ (s.file dir).isDirectory ≠ 0#32) : Action S G s (s.setDir dir)

/-- A sequence of actions. -/
abbrev Actions (S : SysCalls σ) (G : Scope) : Shell σ → Shell σ → Prop :=
  Relation.ReflTransGen (Action S G)

section Actions

variable {S : SysCalls σ} {G : Scope} {s s' : Shell σ} {name : CString} {i : Fin 64}

lemma fillFile_ramfs (data : ℕ → Byte) (size : Word) : (fillFile i data size s).ramfs =
    { s.ramfs with files := Function.update s.ramfs.files i { s.file i with size := size } } := by
  rw [fillFile]
  split <;> rfl

lemma Shell.grown_ramfs (size : Word) : (s.grown S i size).ramfs =
    { s.ramfs with files := Function.update s.ramfs.files i { s.file i with
      data := (s.malloc S (grownCapacity size)).1, capacity := grownCapacity size } } := by
  rw [grown]
  split <;> rfl

lemma fillFile_files (data : ℕ → Byte) (size : Word) : (fillFile i data size s).ramfs.files =
    Function.update s.ramfs.files i { s.file i with size := size } := by
  rw [fillFile_ramfs]

lemma Shell.grown_files (size : Word) : (s.grown S i size).ramfs.files =
    Function.update s.ramfs.files i { s.file i with
      data := (s.malloc S (grownCapacity size)).1, capacity := grownCapacity size } := by
  rw [grown_ramfs]

lemma Action.initialized (h : Action S G s s') :
    s'.ramfs.initialized = s.ramfs.initialized := by
  cases h with
  | delete i =>
      change (s.release S i).ramfs.initialized = _
      rw [Shell.release_ramfs]
  | grow => rw [Shell.grown_ramfs]
  | fill => rw [fillFile_ramfs]
  | _ => rfl

lemma Actions.initialized (h : Actions S G s s') :
    s'.ramfs.initialized = s.ramfs.initialized := by
  induction h with
  | refl => rfl
  | tail _ h ih => rw [h.initialized, ih]

/-- `ramfs_create` gets as far as putting an entry in use. -/
def Shell.Creates (S : SysCalls σ) (s : Shell σ) (name : CString) (isDirectory : Word) : Prop :=
  ramfsFindFile name s.ramfs.currentDir s.ramfs = none ∧
    (∃ slot, ramfsFindFreeSlot s.ramfs = some slot) ∧
    (isDirectory = 0#32 → (S.sysMalloc 256#32 s.heap s.mem).1 ≠ NULL)

/-- The call creates an entry of the name. -/
def Shell.CallCreates (S : SysCalls σ) (s : Shell σ) (c : RamFsCall) (name : CString) : Prop :=
  match c with
  | .create n isDirectory => n = name ∧ s.Creates S n isDirectory
  | .write n _ _ => n = name ∧ s.Creates S n 0#32
  | _ => False

/-- The call writes or deletes the entry that is in slot `i`. -/
def Shell.CallTouches (s : Shell σ) (c : RamFsCall) (i : Fin 64) : Prop :=
  match c with
  | .delete n => ramfsFindFile n s.ramfs.currentDir s.ramfs = some i
  | .write n _ _ => ramfsFindFile n s.ramfs.currentDir s.ramfs = some i
  | _ => False

/-- The number of bytes a call writes. -/
def RamFsCall.writes : RamFsCall → Option Word
  | .write _ _ size => some size
  | _ => none

/-- What a call does stays in the scope. -/
structure Shell.Permits (S : SysCalls σ) (G : Scope) (s : Shell σ) (c : RamFsCall) : Prop where
  creates : ∀ name, s.CallCreates S c name → G.named name
  touches : ∀ i, s.CallTouches c i → G.may i
  fresh : ∀ i, (s.file i).inUse = false → G.may i
  sizes : ∀ size, c.writes = some size → G.sized size

lemma Shell.permits_all (c : RamFsCall) : s.Permits S .all c :=
  ⟨fun _ _ => trivial, fun _ _ => trivial, fun _ _ => trivial, fun _ _ => trivial⟩

/-- `ramfs_create` is a sequence of actions, and the slot it returns is in use and was not. -/
lemma ramfsCreate_actions (hinit : s.ramfs.initialized = true) {isDirectory : Word}
    (hname : s.Creates S name isDirectory → G.named name) :
    Actions S G s (ramfsCreate S name isDirectory s).2 ∧
      ∀ slot, (ramfsCreate S name isDirectory s).1 = .ok slot → (s.file slot).inUse = false ∧
        ((ramfsCreate S name isDirectory s).2.file slot).inUse = true := by
  cases hfind : ramfsFindFile name s.ramfs.currentDir s.ramfs with
  | some i =>
      rw [ramfsCreate_exists hinit hfind]
      exact ⟨.refl, by simp⟩
  | none =>
      cases hslot : ramfsFindFreeSlot s.ramfs with
      | none =>
          rw [ramfsCreate_full hinit hfind hslot]
          exact ⟨.refl, by simp⟩
      | some slot =>
          have hfree := free_of_findFreeSlot hslot
          by_cases hdir : isDirectory = 0#32
          · subst hdir
            by_cases hnull : (s.malloc S 256#32).1 = NULL
            · rw [ramfsCreate_noMemory hinit hfind hslot hnull]
              have hmalloc := Action.noMemory (G := G) 256#32 hnull
              exact ⟨(Relation.ReflTransGen.single hmalloc).tail
                (.scratch slot _ hfree hfree rfl), by simp⟩
            · rw [ramfsCreate_file hinit hfind hslot hnull]
              have hname := hname ⟨hfind, ⟨slot, hslot⟩, fun _ => hnull⟩
              refine ⟨.single (.createFile name slot hname hfind hfree hnull),
                fun slot' h => ?_⟩
              obtain rfl := Except.ok.inj h
              exact ⟨hfree, by simp [Shell.file, Shell.link, newFile]⟩
          · rw [ramfsCreate_directory hinit hfind hslot hdir]
            have hname := hname ⟨hfind, ⟨slot, hslot⟩, fun h => absurd h hdir⟩
            refine ⟨.single (.createDirectory name slot isDirectory hname hfind hfree hdir),
              fun slot' h => ?_⟩
            obtain rfl := Except.ok.inj h
            exact ⟨hfree, by simp [Shell.file, Shell.link, newFile]⟩

lemma findOrCreate_actions (hinit : s.ramfs.initialized = true)
    (hname : s.Creates S name 0#32 → G.named name)
    (hfound : ∀ i, ramfsFindFile name s.ramfs.currentDir s.ramfs = some i → G.may i)
    (hfresh : ∀ i, (s.file i).inUse = false → G.may i) :
    Actions S G s (findOrCreate S name s).2 ∧ ∀ slot, (findOrCreate S name s).1 = .ok slot →
      G.may slot ∧ ((findOrCreate S name s).2.file slot).inUse = true := by
  rw [findOrCreate]
  cases hfind : ramfsFindFile name s.ramfs.currentDir s.ramfs with
  | some i =>
      refine ⟨.refl, fun slot hslot => ?_⟩
      obtain rfl := Except.ok.inj hslot
      exact ⟨hfound i hfind, (entry_of_find hfind).1⟩
  | none =>
      obtain ⟨hact, hslot⟩ := ramfsCreate_actions hinit hname
      exact ⟨hact, fun slot h => ⟨hfresh slot (hslot slot h).1, (hslot slot h).2⟩⟩

lemma ramfsDelete_actions
    (hfound : ∀ i, ramfsFindFile name s.ramfs.currentDir s.ramfs = some i → G.may i) :
    Actions S G s (ramfsDelete S name s).2 := by
  cases hfind : ramfsFindFile name s.ramfs.currentDir s.ramfs with
  | none =>
      rw [ramfsDelete_missing hfind]
  | some i =>
      obtain ⟨huse, hparent, -⟩ := entry_of_find hfind
      by_cases h : (s.file i).isDirectory ≠ 0#32 ∧ hasEntry i s.ramfs = true
      · rw [ramfsDelete_notEmpty hfind h]
      · rw [ramfsDelete_found hfind h]
        refine .single (.delete i (hfound i hfind) huse hparent ?_)
        rcases not_and_or.mp h with hreg | hempty
        · exact Or.inl (not_not.mp hreg)
        · exact Or.inr fun j hj hp => hempty (hasEntry_iff.mpr ⟨j, hj, hp⟩)

/-- The part of `ramfs_write_file` behind the search: a buffer is grown if need be and filled. -/
lemma ramfsWriteFile_actions (hinit : s.ramfs.initialized = true) (data : ℕ → Byte)
    (size : Word) (hname : s.Creates S name 0#32 → G.named name)
    (hfound : ∀ i, ramfsFindFile name s.ramfs.currentDir s.ramfs = some i → G.may i)
    (hfresh : ∀ i, (s.file i).inUse = false → G.may i) (hsized : G.sized size) :
    Actions S G s (ramfsWriteFile S name data size s).2 := by
  obtain ⟨hact, huse⟩ := findOrCreate_actions hinit hname hfound hfresh
  obtain ⟨r, s', hfoc⟩ : ∃ r s', findOrCreate S name s = (r, s') := ⟨_, _, rfl⟩
  rw [hfoc] at hact huse
  cases r with
  | error code =>
      rw [ramfsWriteFile_error hfoc]
      exact hact
  | ok i =>
      obtain ⟨hmay, huse⟩ : G.may i ∧ (s'.file i).inUse = true := huse i rfl
      by_cases hreg : (s'.file i).isDirectory = 0#32
      · by_cases hcap : (s'.file i).capacity < size
        · by_cases hnull : (s'.malloc S (grownCapacity size)).1 = NULL
          · rw [ramfsWriteFile_noMemory hfoc hreg (expandBuffer_noMemory hcap hnull)]
            exact hact.tail (.noMemory _ hnull)
          · rw [ramfsWriteFile_file hfoc hreg (expandBuffer_grown hcap hnull)]
            have hgrown : (s'.grown S i size).file i = { s'.file i with
                data := (s'.malloc S (grownCapacity size)).1, capacity := grownCapacity size } := by
              rw [Shell.file, Shell.grown_ramfs]
              exact Function.update_self ..
            refine (hact.tail (.grow i size hmay hsized huse hreg hcap hnull)).tail
              (.fill i data size hmay hsized ?_ ?_ ?_) <;> rw [hgrown]
            · exact huse
            · exact hreg
            · exact (grownCapacity_cases size).2.imp And.left id
        · rw [ramfsWriteFile_file hfoc hreg (expandBuffer_enough hcap)]
          exact hact.tail
            (.fill i data size hmay hsized huse hreg (Or.inr (BitVec.not_lt.mp hcap)))
      · rw [ramfsWriteFile_directory hfoc hreg]
        exact hact

lemma cmdCd_actions (hinit : s.ramfs.initialized = true) (target : Option CString) :
    Actions S G s (cmdCd target s).2 := by
  simp only [cmdCd, ramfsInit_of_initialized hinit]
  cases target with
  | none => exact .refl
  | some target =>
      dsimp only
      split_ifs with hdd hroot hslash
      · exact .single (.chdir _ (Or.inr (Or.inl rfl)))
      · exact .refl
      · exact .single (.chdir _ (Or.inl rfl))
      · cases hfind : ramfsFindFile target s.ramfs.currentDir s.ramfs with
        | none => exact .refl
        | some i =>
            dsimp only
            split_ifs with hreg
            · exact .refl
            · exact .single (.chdir _ (Or.inr (Or.inr ⟨(entry_of_find hfind).1, hreg⟩)))

/-- **A call is a sequence of actions** in every scope that permits it. -/
theorem Shell.call_actions (hinit : s.ramfs.initialized = true) {c : RamFsCall}
    (h : s.Permits S G c) : Actions S G s (s.call S c).2 := by
  cases c with
  | create name isDirectory =>
      exact (ramfsCreate_actions hinit fun hc => h.creates name ⟨rfl, hc⟩).1
  | delete name => exact ramfsDelete_actions fun i hi => h.touches i hi
  | write name data size =>
      exact ramfsWriteFile_actions hinit data size (fun hc => h.creates name ⟨rfl, hc⟩)
        (fun i hi => h.touches i hi) h.fresh (h.sizes size rfl)
  | read name bufferSize => exact .refl
  | cd target => exact cmdCd_actions hinit target

/-- What every action keeps is kept by sequences of them. -/
lemma Actions.invariant {P : Shell σ → Prop} (hact : ∀ u u', P u → Action S G u u' → P u')
    (h : Actions S G s s') (hs : P s) : P s' := by
  induction h with
  | refl => exact hs
  | tail _ h ih => exact hact _ _ ih h

/-- **The invariant rule of the file system**: what every action in a scope keeps holds at the
end of a run whose calls the scope permits. -/
theorem Shell.run_invariant {P : Shell σ → Prop} {ok : Shell σ → RamFsCall → Prop}
    {cs : List RamFsCall} (hperm : ∀ u c, P u → ok u c → u.Permits S G c)
    (hact : ∀ u u', P u → Action S G u u' → P u')
    (hrun : Run (Shell.step S) ok s cs s') (hinit : s.ramfs.initialized = true) (hs : P s) :
    P s' ∧ s'.ramfs.initialized = true := by
  refine hrun.invariant (P := fun u => P u ∧ u.ramfs.initialized = true) ?_ ⟨hs, hinit⟩
  rintro u c u' ⟨hu, hui⟩ hok hstep
  obtain rfl := Option.some.inj hstep
  have hcall := Shell.call_actions hui (hperm u c hu hok)
  exact ⟨hcall.invariant hact hu, hcall.initialized.trans hui⟩

lemma Shell.Started.initialized (h : s.Started) : s.ramfs.initialized = true := by
  obtain ⟨s₀, h₀, -, rfl⟩ := h
  simp [ramfsInit, h₀, RamFs.initial]

lemma Shell.Started.ramfs_eq (h : s.Started) : s.ramfs = RamFs.initial := by
  obtain ⟨s₀, h₀, -, rfl⟩ := h
  simp [ramfsInit, h₀]

lemma Shell.Started.trace_eq (h : s.Started) : s.trace = [] := by
  obtain ⟨s₀, h₀, ht, rfl⟩ := h
  simp [ramfsInit, h₀, ht]

end Actions

/-! ### A heap that never serves an address twice -/

/-- The bytes of the heap handed out so far, and the blocks not released: they lie in these
bytes, with room for a header between any two. -/
structure BumpHeap where
  next : ℕ
  held : List (Addr × Word)
  next_le : next ≤ 0x100000
  bounds : ∀ b ∈ held, b.2 ≠ 0#32 ∧ 0x40000C ≤ b.1.toNat ∧
    b.1.toNat + b.2.toNat ≤ 0x400000 + next
  apart : ∀ b ∈ held, ∀ c ∈ held, b ≠ c →
    b.1.toNat + b.2.toNat + 12 ≤ c.1.toNat ∨ c.1.toNat + c.2.toNat + 12 ≤ b.1.toNat

/-- Nothing is handed out. -/
def BumpHeap.empty : BumpHeap := ⟨0, [], by omega, by simp, by simp⟩

/-- The address of the next block. -/
def BumpHeap.ptr (h : BumpHeap) : Addr := BitVec.ofNat 32 (0x40000C + h.next)

lemma BumpHeap.toNat_ptr (h : BumpHeap) : h.ptr.toNat = 0x40000C + h.next := by
  have := h.next_le
  rw [ptr, BitVec.toNat_ofNat]
  omega

/-- One more block behind the others. -/
def BumpHeap.push (h : BumpHeap) (size : Word) (hsize : size ≠ 0#32)
    (hfit : h.next + 12 + size.toNat ≤ 0x100000) : BumpHeap where
  next := h.next + 12 + size.toNat
  held := (h.ptr, size) :: h.held
  next_le := hfit
  bounds b hb := by
    rcases List.mem_cons.mp hb with rfl | hb
    · have := h.toNat_ptr
      exact ⟨hsize, by dsimp only; omega⟩
    · have := h.bounds b hb
      exact ⟨this.1, by omega⟩
  apart b hb c hc hne := by
    have hptr := h.toNat_ptr
    rcases List.mem_cons.mp hb with rfl | hb <;> rcases List.mem_cons.mp hc with rfl | hc
    · exact absurd rfl hne
    · have := h.bounds c hc
      dsimp only
      omega
    · have := h.bounds b hb
      dsimp only
      omega
    · exact h.apart b hb c hc hne

/-- A block is released. -/
def BumpHeap.drop (h : BumpHeap) (ptr : Addr) : BumpHeap where
  next := h.next
  held := h.held.filter fun b => b.1 ≠ ptr
  next_le := h.next_le
  bounds b hb := h.bounds b (List.mem_of_mem_filter hb)
  apart b hb c hc := h.apart b (List.mem_of_mem_filter hb) c (List.mem_of_mem_filter hc)

/-- System calls over a heap that serves requests one behind the other, as the kernel's does
while nothing is released. -/
def bumpCalls : SysCalls BumpHeap where
  sysMalloc size h m :=
    if hfit : size ≠ 0#32 ∧ h.next + 12 + size.toNat ≤ 0x100000 then
      (h.ptr, h.push size hfit.1 hfit.2, m)
    else (NULL, h, m)
  sysFree ptr h m := (h.drop ptr, m)

/-- The file system set up over an empty heap. -/
def bumpShell : Shell BumpHeap := ⟨RamFs.initial, .empty, fun _ => 0#8, []⟩

lemma bumpShell_started : bumpShell.Started :=
  ⟨⟨{ RamFs.initial with initialized := false }, .empty, fun _ => 0#8, []⟩, rfl, rfl, rfl⟩

end MiqOSoft
