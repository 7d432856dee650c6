import MiqOSoft.Forest.Rooted
import MiqOSoft.Shell.RamFsSteps

/-!
The directory tree of the RAM file system.

* `TreeOk`: the entries in use form a tree under slot 0, every parent is a directory, and
  `current_dir` and `file_count` agree with it.  `TreeOk.setFile`, `TreeOk.insert`,
  `TreeOk.erase` and `TreeOk.setDir` are the four ways the table changes.
* `Shell.run_tree`: the tree is in order in every state of a run, whatever the names.
* `NamesOk`: stored names are unique in each directory, and the entries that were created and
  not deleted since (`Linked`) are stored under the names they were given.
* `Shell.run_names_iff`: names are unique and created entries are found along a run exactly when
  no entry is created under a name of more than 31 characters.
-/

namespace MiqOSoft

open Machine Transition

variable {σ : Type*}

/-! ### The tree -/

/-- The slots in use. -/
def used (fs : RamFs) : Finset (Fin 64) := Finset.univ.filter fun i => (fs.files i).inUse = true

lemma mem_used {fs : RamFs} {i : Fin 64} : i ∈ used fs ↔ (fs.files i).inUse = true := by
  simp [used]

lemma used_eq_insert {fs fs' : RamFs} {i : Fin 64} {f : RamFile}
    (h : fs'.files = Function.update fs.files i f) (huse : f.inUse = true) :
    used fs' = insert i (used fs) := by
  ext j
  rw [Finset.mem_insert, mem_used, mem_used, h]
  by_cases hj : j = i
  · subst hj
    simp [huse]
  · simp [hj]

lemma used_eq_erase {fs fs' : RamFs} {i : Fin 64} {f : RamFile}
    (h : fs'.files = Function.update fs.files i f) (huse : f.inUse = false) :
    used fs' = (used fs).erase i := by
  ext j
  rw [Finset.mem_erase, mem_used, mem_used, h]
  by_cases hj : j = i
  · subst hj
    simp [huse]
  · simp [hj]

/-- The entries in use are a tree of directories under slot 0, and the counters agree. -/
structure TreeOk (fs : RamFs) : Prop where
  rooted : Forest.Rooted 0 (fun i => (fs.files i).parentIndex) (used fs)
  parents : ∀ i ∈ used fs, (fs.files (fs.files i).parentIndex).isDirectory ≠ 0#32
  current : fs.currentDir ∈ used fs
  currentDirectory : (fs.files fs.currentDir).isDirectory ≠ 0#32
  count : fs.fileCount.toNat = (used fs).card

namespace TreeOk

variable {fs fs' : RamFs} {i : Fin 64} {f : RamFile}

lemma root_mem (h : TreeOk fs) : 0 ∈ used fs := h.rooted.root_mem

lemma root_parent (h : TreeOk fs) : (fs.files 0).parentIndex = 0 := h.rooted.parent_root

lemma root_directory (h : TreeOk fs) : (fs.files 0).isDirectory ≠ 0#32 := by
  have := h.parents 0 h.root_mem
  rwa [h.root_parent] at this

/-- The tree rests on the fields `in_use`, `parent_index` and `is_directory`, the last two of
the entries in use only. -/
lemma congr (h : TreeOk fs) (huse : used fs' = used fs)
    (heq : ∀ j ∈ used fs, (fs'.files j).parentIndex = (fs.files j).parentIndex ∧
      (fs'.files j).isDirectory = (fs.files j).isDirectory)
    (hcur : fs'.currentDir ∈ used fs) (hdir : (fs.files fs'.currentDir).isDirectory ≠ 0#32)
    (hcount : fs'.fileCount = fs.fileCount) : TreeOk fs' where
  rooted := by
    rw [huse]
    exact h.rooted.congr fun j hj => (heq j hj).1
  parents j hj := by
    rw [huse] at hj
    rw [(heq j hj).1, (heq _ (h.rooted.parent_mem j hj)).2]
    exact h.parents j hj
  current := by
    rw [huse]
    exact hcur
  currentDirectory := by
    rw [(heq _ hcur).2]
    exact hdir
  count := by rw [hcount, huse, h.count]

/-- An update of a slot that leaves the three fields. -/
lemma setFile (h : TreeOk fs) (huse : f.inUse = (fs.files i).inUse)
    (hf : f.inUse = true → f.parentIndex = (fs.files i).parentIndex ∧
      f.isDirectory = (fs.files i).isDirectory) :
    TreeOk { fs with files := Function.update fs.files i f } := by
  refine h.congr (Finset.ext fun j => ?_) (fun j hj => ?_) h.current h.currentDirectory rfl
  · rw [mem_used, mem_used]
    by_cases hj : j = i
    · subst hj
      simp [huse]
    · simp [hj]
  · by_cases hji : j = i
    · subst hji
      simpa using hf (huse.trans (mem_used.mp hj))
    · simp [hji]

/-- A new entry of the current directory in a free slot. -/
lemma insert (h : TreeOk fs) (hfree : (fs.files i).inUse = false) (huse : f.inUse = true)
    (hparent : f.parentIndex = fs.currentDir) (hfiles : fs'.files = Function.update fs.files i f)
    (hcur : fs'.currentDir = fs.currentDir) (hcount : fs'.fileCount = fs.fileCount + 1#32) :
    TreeOk fs' := by
  have hnot : i ∉ used fs := by simp [mem_used, hfree]
  have hne : ∀ j ∈ used fs, j ≠ i := fun j hj hji => hnot (hji ▸ hj)
  have hold : ∀ j ∈ used fs, fs'.files j = fs.files j := fun j hj => by
    rw [hfiles, Function.update_of_ne (hne j hj)]
  have hnew : fs'.files i = f := by rw [hfiles, Function.update_self]
  have hused := used_eq_insert hfiles huse
  refine ⟨?_, ?_, ?_, ?_, ?_⟩
  · rw [hused, Finset.coe_insert]
    refine h.rooted.insert (by simpa using hnot) ?_ fun j hj => ?_
    · simp only [hnew, hparent, Finset.mem_coe]
      exact h.current
    · simp only [hold j hj]
  · intro j hj
    rw [hused, Finset.mem_insert] at hj
    rcases hj with rfl | hj
    · rw [hnew, hparent, hold _ h.current]
      exact h.currentDirectory
    · rw [hold j hj, hold _ (h.rooted.parent_mem j hj)]
      exact h.parents j hj
  · rw [hused, hcur]
    exact Finset.mem_insert_of_mem h.current
  · rw [hcur, hold _ h.current]
    exact h.currentDirectory
  · have hle : (used fs).card ≤ 64 := (Finset.card_le_univ _).trans (by simp)
    rw [hused, Finset.card_insert_of_notMem hnot, ← h.count, hcount]
    have := h.count
    bv_omega

/-- The removal of an entry of the current directory that is no parent. -/
lemma erase (h : TreeOk fs) (huse : (fs.files i).inUse = true)
    (hparent : (fs.files i).parentIndex = fs.currentDir)
    (hleaf : ∀ j ∈ used fs, (fs.files j).parentIndex ≠ i)
    (hfiles : fs'.files = Function.update fs.files i RamFile.zero)
    (hcur : fs'.currentDir = fs.currentDir) (hcount : fs'.fileCount = fs.fileCount - 1#32) :
    TreeOk fs' := by
  have hi : i ∈ used fs := mem_used.mpr huse
  have hold : ∀ j, j ≠ i → fs'.files j = fs.files j := fun j hj => by
    rw [hfiles, Function.update_of_ne hj]
  have hused := used_eq_erase hfiles rfl
  -- the current directory has an entry, this one
  have hcurne : fs.currentDir ≠ i := hparent ▸ hleaf i hi
  refine ⟨?_, ?_, ?_, ?_, ?_⟩
  · rw [hused, Finset.coe_erase]
    exact h.rooted.erase hleaf fun j _ hji => by simp only [hold j hji]
  · intro j hj
    rw [hused, Finset.mem_erase] at hj
    rw [hold j hj.1, hold _ (hleaf j hj.2)]
    exact h.parents j hj.2
  · rw [hused, hcur]
    exact Finset.mem_erase.mpr ⟨hcurne, h.current⟩
  · rw [hcur, hold _ hcurne]
    exact h.currentDirectory
  · have hpos : 0 < (used fs).card := Finset.card_pos.mpr ⟨i, hi⟩
    rw [hused, Finset.card_erase_of_mem hi, ← h.count, hcount]
    have := h.count
    bv_omega

/-- A change to a directory in use. -/
lemma setDir (h : TreeOk fs) {dir : Fin 64} (hdir : dir ∈ used fs)
    (hd : (fs.files dir).isDirectory ≠ 0#32) : TreeOk { fs with currentDir := dir } :=
  h.congr rfl (fun _ _ => ⟨rfl, rfl⟩) hdir hd rfl

end TreeOk

/-- The tree that `ramfs_init` sets up: the root alone. -/
lemma treeOk_initial : TreeOk RamFs.initial := by
  have huse : used RamFs.initial = {0} := by decide +kernel
  refine ⟨?_, ?_, ?_, ?_, ?_⟩ <;> try rw [huse]
  · refine ⟨by simp, rfl, ?_, ?_⟩
    · rintro x hx
      obtain rfl : x = 0 := by simpa using hx
      simp [RamFs.initial, rootFile]
    · rintro x hx
      obtain rfl : x = 0 := by simpa using hx
      exact ⟨0, rfl⟩
  · intro i hi
    obtain rfl : i = 0 := by simpa using hi
    decide
  · exact Finset.mem_singleton_self _
  · decide
  · rfl

section Tree

variable {S : SysCalls σ} {G : Scope} {s s' : Shell σ} {i : Fin 64}

/-- Every action keeps the tree. -/
lemma Action.treeOk (h : Action S G s s') (hs : TreeOk s.ramfs) : TreeOk s'.ramfs := by
  cases h with
  | noMemory size hnull => exact hs
  | scratch slot f hfree hf hdata =>
      exact hs.setFile (hf.trans hfree.symm) fun h => absurd (hf.symm.trans h) Bool.false_ne_true
  | createFile name slot hname hfind hfree hmem => exact hs.insert hfree rfl rfl rfl rfl rfl
  | createDirectory name slot isDirectory hname hfind hfree hdir =>
      exact hs.insert hfree rfl rfl rfl rfl rfl
  | delete i hmay huse hparent hempty =>
      have hleaf : ∀ j ∈ used s.ramfs, (s.file j).parentIndex ≠ i := by
        intro j hj hp
        rcases hempty with hreg | hnone
        · exact hs.parents j hj (hp ▸ hreg)
        · exact hnone j (mem_used.mp hj) hp
      refine hs.erase huse hparent hleaf ?_ ?_ ?_ <;> rw [Shell.unlink, Shell.release_ramfs]
  | grow i size hmay hsized huse hreg hcap hmem =>
      rw [Shell.grown_ramfs]
      exact hs.setFile rfl fun _ => ⟨rfl, rfl⟩
  | fill i data size hmay hsized huse hreg hsize =>
      rw [fillFile_ramfs]
      exact hs.setFile rfl fun _ => ⟨rfl, rfl⟩
  | chdir dir hdir =>
      rcases hdir with rfl | rfl | ⟨huse, hd⟩
      · exact hs.setDir hs.root_mem hs.root_directory
      · exact hs.setDir (hs.rooted.parent_mem _ hs.current) (hs.parents _ hs.current)
      · exact hs.setDir (mem_used.mpr huse) hd

/-- The tree is in order at the end of every run. -/
lemma Shell.run_treeOk {ok : Shell σ → RamFsCall → Prop} {cs : List RamFsCall}
    (hs : s.Started) (hrun : Run (Shell.step S) ok s cs s') : TreeOk s'.ramfs := by
  refine (Shell.run_invariant (G := .all) (P := fun u => TreeOk u.ramfs)
    (fun u c _ _ => u.permits_all c) (fun u u' hu h => h.treeOk hu) hrun hs.initialized ?_).1
  rw [hs.ramfs_eq]
  exact treeOk_initial

/-- **The directory tree** in every state of a run: slot 0 is a directory and its own parent,
every parent is a directory in use, the parents lead from every entry to slot 0, the current
directory is a directory in use, and the entries in use are counted. -/
theorem Shell.run_tree {ok : Shell σ → RamFsCall → Prop} {cs : List RamFsCall}
    (hs : s.Started) (hrun : Run (Shell.step S) ok s cs s') :
    ((s'.file 0).inUse = true ∧ (s'.file 0).isDirectory ≠ 0#32 ∧ (s'.file 0).parentIndex = 0) ∧
      (∀ i, (s'.file i).inUse = true → (s'.file (s'.file i).parentIndex).inUse = true ∧
        (s'.file (s'.file i).parentIndex).isDirectory ≠ 0#32) ∧
      (∀ i, (s'.file i).inUse = true →
        (∃ k, (fun j => (s'.file j).parentIndex)^[k] i = 0) ∧
        ∀ k, 0 < k → (fun j => (s'.file j).parentIndex)^[k] i = i → i = 0) ∧
      ((s'.file s'.ramfs.currentDir).inUse = true ∧
        (s'.file s'.ramfs.currentDir).isDirectory ≠ 0#32) ∧
      s'.ramfs.fileCount.toNat =
        (Finset.univ.filter fun i => (s'.file i).inUse = true).card := by
  have h := Shell.run_treeOk hs hrun
  refine ⟨⟨mem_used.mp h.root_mem, h.root_directory, h.root_parent⟩, fun i hi => ?_,
    fun i hi => ?_, ⟨mem_used.mp h.current, h.currentDirectory⟩, h.count⟩
  · have hi := mem_used.mpr hi
    exact ⟨mem_used.mp (h.rooted.parent_mem i hi), h.parents i hi⟩
  · have hi : i ∈ used s'.ramfs := mem_used.mpr hi
    exact ⟨h.rooted.reaches i hi, fun k hk hcycle => h.rooted.eq_root_of_cycle hi hk hcycle⟩

/-- A run that makes a directory.  The name of the root is taken, `cd ..` stays in the root, the
write goes to the directory and fails, and the root cannot be deleted. -/
theorem Shell.run_tree_bump :
    ∃ s', Run (Shell.step bumpCalls) (fun _ _ => True) bumpShell
        [.create slash 1#32, .create dotDot 1#32, .cd (some dotDot),
          .write dotDot (fun _ => 0#8) 3#32, .delete slash] s' ∧
      s'.ramfs.fileCount.toNat =
        (Finset.univ.filter fun i => (s'.file i).inUse = true).card := by
  have hrun : Run (Shell.step bumpCalls) (fun _ _ => True) bumpShell
      [.create slash 1#32, .create dotDot 1#32, .cd (some dotDot),
        .write dotDot (fun _ => 0#8) 3#32, .delete slash] _ :=
    .cons trivial rfl (.cons trivial rfl (.cons trivial rfl
      (.cons trivial rfl (.cons trivial rfl (.nil _)))))
  exact ⟨_, hrun, (Shell.run_tree bumpShell_started hrun).2.2.2.2⟩

end Tree

/-! ### Names -/

/-- The entry was created in the slot under the name, in the directory, and has not been deleted
since. -/
def Linked : List RamFsEvent → Fin 64 → CString → Fin 64 → Prop
  | [], _, _, _ => False
  | .created i n d :: t, slot, name, dir =>
      i = slot ∧ n = name ∧ d = dir ∨ i ≠ slot ∧ Linked t slot name dir
  | .deleted i :: t, slot, name, dir => i ≠ slot ∧ Linked t slot name dir
  | .malloc _ _ :: t, slot, name, dir => Linked t slot name dir
  | .free _ :: t, slot, name, dir => Linked t slot name dir
  | .store _ _ _ _ :: t, slot, name, dir => Linked t slot name dir

/-- Stored names are unique in each directory, and what was created is stored under its name. -/
structure NamesOk (s : Shell σ) : Prop where
  unique : ∀ i j dir text, Entry s.ramfs i dir text → Entry s.ramfs j dir text → i = j
  linked : ∀ slot name dir, Linked s.trace slot name dir → Entry s.ramfs slot dir name.chars

/-- No two entries but the root have the same parent and the same stored name, and what was
created is found until it is deleted. -/
structure NamesFound (s : Shell σ) : Prop where
  unique : ∀ i j, i ≠ 0 → j ≠ 0 → (s.file i).inUse = true → (s.file j).inUse = true →
    (s.file i).parentIndex = (s.file j).parentIndex →
    (s.file i).name.text = (s.file j).name.text → i = j
  found : ∀ slot name dir, Linked s.trace slot name dir →
    ramfsFindFile name dir s.ramfs = some slot

section Names

variable {S : SysCalls σ} {G : Scope} {s s' : Shell σ} {i : Fin 64} {name : CString}

lemma NamesOk.namesFound (h : NamesOk s) : NamesFound s where
  unique i j _ _ hi hj hp ht := h.unique i j _ _ ⟨hi, rfl, rfl⟩ ⟨hj, hp.symm, ht.symm⟩
  found slot name dir hl := by
    have he := h.linked slot name dir hl
    exact find_eq_some he fun j hj => h.unique j slot _ _ hj he

lemma linked_release : Linked (s.release S i).trace = Linked s.trace := by
  rw [Shell.release]
  split <;> rfl

lemma linked_grown (size : Word) : Linked (s.grown S i size).trace = Linked s.trace := by
  rw [Shell.grown]
  split <;> rfl

lemma linked_fillFile (data : ℕ → Byte) (size : Word) :
    Linked (fillFile i data size s).trace = Linked s.trace := by
  rw [fillFile]
  split <;> rfl

/-- Names rest on the fields `in_use`, `parent_index` and `name`, the last two of the entries in
use only. -/
lemma NamesOk.congr (h : NamesOk s) (htrace : Linked s'.trace = Linked s.trace)
    (huse : ∀ j, (s'.file j).inUse = (s.file j).inUse)
    (heq : ∀ j, (s.file j).inUse = true → (s'.file j).parentIndex = (s.file j).parentIndex ∧
      (s'.file j).name = (s.file j).name) : NamesOk s' := by
  have hentry : ∀ j dir text, Entry s'.ramfs j dir text ↔ Entry s.ramfs j dir text := by
    intro j dir text
    rw [Entry, Entry, huse j]
    refine and_congr_right fun hj => ?_
    rw [(heq j hj).1, (heq j hj).2]
  refine ⟨fun j k dir text hj hk => ?_, fun slot name dir hl => ?_⟩
  · exact h.unique j k dir text ((hentry ..).mp hj) ((hentry ..).mp hk)
  · rw [htrace] at hl
    exact (hentry ..).mpr (h.linked slot name dir hl)

lemma NamesOk.setFile (h : NamesOk s) {f : RamFile}
    (hfiles : s'.ramfs.files = Function.update s.ramfs.files i f)
    (htrace : Linked s'.trace = Linked s.trace) (huse : f.inUse = (s.file i).inUse)
    (hf : f.inUse = true → f.parentIndex = (s.file i).parentIndex ∧ f.name = (s.file i).name) :
    NamesOk s' := by
  refine h.congr htrace (fun j => ?_) fun j hj => ?_ <;> rw [Shell.file, hfiles] <;>
    by_cases hji : j = i
  · rw [hji, Function.update_self, huse]
  · rw [Function.update_of_ne hji]
  · subst hji
    rw [Function.update_self]
    exact hf (huse.trans hj)
  · rw [Function.update_of_ne hji]
    exact ⟨rfl, rfl⟩

/-- A new entry whose name is not cut, and was not in the directory. -/
lemma NamesOk.link (h : NamesOk s) {slot : Fin 64} {f : RamFile} (hlen : name.chars.length ≤ 31)
    (hfind : ramfsFindFile name s.ramfs.currentDir s.ramfs = none)
    (huse : f.inUse = true) (hparent : f.parentIndex = s.ramfs.currentDir)
    (hname : f.name = (s.file slot).name.assign name) (hfs : s'.ramfs = s.ramfs)
    (htrace : Linked s'.trace = Linked s.trace) : NamesOk (s'.link slot name f) := by
  have hfiles : (s'.link slot name f).ramfs.files = Function.update s.ramfs.files slot f := by
    rw [Shell.link, hfs]
  have htext : f.name.text = name.chars := by rw [hname, FileName.text_assign_of_le _ hlen]
  have hnew : ∀ dir text, Entry (s'.link slot name f).ramfs slot dir text →
      dir = s.ramfs.currentDir ∧ text = name.chars := by
    rintro dir text ⟨-, hp, ht⟩
    rw [hfiles, Function.update_self] at hp ht
    exact ⟨hp.symm.trans hparent, ht.symm.trans htext⟩
  have hold : ∀ j dir text, j ≠ slot → (Entry (s'.link slot name f).ramfs j dir text ↔
      Entry s.ramfs j dir text) := by
    intro j dir text hj
    rw [Entry, hfiles, Function.update_of_ne hj]
    rfl
  refine ⟨fun j k dir text hj hk => ?_, fun slot' name' dir hl => ?_⟩
  · by_cases hjs : j = slot <;> by_cases hks : k = slot
    · rw [hjs, hks]
    · rw [hjs] at hj
      obtain ⟨rfl, rfl⟩ := hnew _ _ hj
      exact absurd ((hold k _ _ hks).mp hk) (not_entry_of_find hfind k)
    · rw [hks] at hk
      obtain ⟨rfl, rfl⟩ := hnew _ _ hk
      exact absurd ((hold j _ _ hjs).mp hj) (not_entry_of_find hfind j)
    · exact h.unique j k dir text ((hold j _ _ hjs).mp hj) ((hold k _ _ hks).mp hk)
  · have hl : slot = slot' ∧ name = name' ∧ s'.ramfs.currentDir = dir ∨
        slot ≠ slot' ∧ Linked s'.trace slot' name' dir := hl
    rcases hl with ⟨rfl, rfl, rfl⟩ | ⟨hne, hl⟩
    · rw [Entry, hfiles, Function.update_self]
      exact ⟨huse, hparent.trans (by rw [hfs]), htext⟩
    · rw [htrace] at hl
      exact (hold _ _ _ hne.symm).mpr (h.linked _ _ _ hl)

/-- The removal of an entry. -/
lemma NamesOk.unlink (h : NamesOk s) (hfs : s'.ramfs = s.ramfs)
    (htrace : Linked s'.trace = Linked s.trace) : NamesOk (s'.unlink i) := by
  have hfiles : (s'.unlink i).ramfs.files = Function.update s.ramfs.files i RamFile.zero := by
    rw [Shell.unlink, hfs]
  have hold : ∀ j dir text, Entry (s'.unlink i).ramfs j dir text ↔
      j ≠ i ∧ Entry s.ramfs j dir text := by
    intro j dir text
    rw [Entry, hfiles]
    by_cases hj : j = i
    · subst hj
      simp [RamFile.zero]
    · rw [Function.update_of_ne hj]
      exact (and_iff_right hj).symm
  refine ⟨fun j k dir text hj hk => ?_, fun slot name dir hl => ?_⟩
  · exact h.unique j k dir text ((hold ..).mp hj).2 ((hold ..).mp hk).2
  · obtain ⟨hne, hl⟩ : i ≠ slot ∧ Linked s'.trace slot name dir := hl
    rw [htrace] at hl
    exact (hold ..).mpr ⟨hne.symm, h.linked _ _ _ hl⟩

/-- Every action keeps the names, if new names are not cut. -/
lemma Action.namesOk (hG : ∀ n, G.named n → n.chars.length ≤ 31) (h : Action S G s s')
    (hs : NamesOk s) : NamesOk s' := by
  cases h with
  | noMemory size hnull => exact hs.congr rfl (fun _ => rfl) fun _ _ => ⟨rfl, rfl⟩
  | scratch slot f hfree hf hdata =>
      exact hs.setFile rfl rfl (hf.trans hfree.symm) fun h =>
        absurd (hf.symm.trans h) Bool.false_ne_true
  | createFile name slot hname hfind hfree hmem =>
      exact hs.link (hG name hname) hfind rfl rfl rfl rfl rfl
  | createDirectory name slot isDirectory hname hfind hfree hdir =>
      exact hs.link (hG name hname) hfind rfl rfl rfl rfl rfl
  | delete i hmay huse hparent hempty => exact hs.unlink Shell.release_ramfs linked_release
  | grow i size hmay hsized huse hreg hcap hmem =>
      exact hs.setFile (Shell.grown_files size) (linked_grown size) rfl fun _ => ⟨rfl, rfl⟩
  | fill i data size hmay hsized huse hreg hsize =>
      exact hs.setFile (fillFile_files data size) (linked_fillFile data size) rfl fun _ =>
        ⟨rfl, rfl⟩
  | chdir dir hdir => exact hs.congr rfl (fun _ => rfl) fun _ _ => ⟨rfl, rfl⟩

/-- The names in the table that `ramfs_init` sets up. -/
lemma Shell.Started.namesOk (h : s.Started) : NamesOk s := by
  refine ⟨fun i j dir text hi hj => ?_, fun slot name dir hl => ?_⟩
  · have hzero : ∀ k, Entry s.ramfs k dir text → k = 0 := by
      intro k hk
      by_contra hne
      have := hk.1
      rw [h.ramfs_eq] at this
      simp [RamFs.initial, hne, RamFile.zero] at this
    rw [hzero i hi, hzero j hj]
  · rw [h.trace_eq] at hl
    exact absurd hl id

/-- The scope of names that are not cut. -/
def Scope.uncut : Scope := ⟨fun n => n.chars.length ≤ 31, fun _ => True, fun _ => True⟩

/-- A call that cuts no name keeps the names. -/
lemma NamesOk.call (h : NamesOk s) (hinit : s.ramfs.initialized = true) {c : RamFsCall}
    (hcut : ∀ name, s.CallCreates S c name → name.chars.length ≤ 31) :
    NamesOk (s.call S c).2 :=
  (Shell.call_actions (G := .uncut) hinit
    ⟨hcut, fun _ _ => trivial, fun _ _ => trivial, fun _ _ => trivial⟩).invariant
    (fun _ _ hu h => h.namesOk (fun _ => id) hu) h

/-- An entry that is created is stored under the first 31 characters of its name. -/
lemma Shell.Creates.stored {isDirectory : Word} (h : s.Creates S name isDirectory)
    (hinit : s.ramfs.initialized = true) : ∃ slot,
      Linked (ramfsCreate S name isDirectory s).2.trace slot name s.ramfs.currentDir ∧
      ((ramfsCreate S name isDirectory s).2.file slot).name.text = name.chars.take 31 ∧
      (ramfsCreate S name isDirectory s).1 = .ok slot := by
  obtain ⟨hfind, ⟨slot, hslot⟩, hmem⟩ := h
  refine ⟨slot, ?_⟩
  by_cases hdir : isDirectory = 0#32
  · subst hdir
    rw [ramfsCreate_file hinit hfind hslot (hmem rfl)]
    refine ⟨Or.inl ⟨rfl, rfl, rfl⟩, ?_, rfl⟩
    rw [← FileName.text_assign (s.file slot).name]
    simp [Shell.file, Shell.link, newFile]
  · rw [ramfsCreate_directory hinit hfind hslot hdir]
    refine ⟨Or.inl ⟨rfl, rfl, rfl⟩, ?_, rfl⟩
    rw [← FileName.text_assign (s.file slot).name]
    simp [Shell.file, Shell.link, newFile]

lemma fillFile_name (data : ℕ → Byte) (size : Word) (j : Fin 64) :
    ((fillFile i data size s).file j).name = (s.file j).name := by
  rw [Shell.file, fillFile_files]
  by_cases hj : j = i
  · rw [hj, Function.update_self]
  · rw [Function.update_of_ne hj]

lemma grown_name (size : Word) (j : Fin 64) :
    ((s.grown S i size).file j).name = (s.file j).name := by
  rw [Shell.file, Shell.grown_files]
  by_cases hj : j = i
  · rw [hj, Function.update_self]
  · rw [Function.update_of_ne hj]

/-- Behind the search, a write leaves the names. -/
lemma ramfsWriteFile_names (name : CString) (data : ℕ → Byte) (size : Word) :
    (∀ j, ((ramfsWriteFile S name data size s).2.file j).name
      = ((findOrCreate S name s).2.file j).name) ∧
      Linked (ramfsWriteFile S name data size s).2.trace
        = Linked (findOrCreate S name s).2.trace := by
  obtain ⟨r, s', hfoc⟩ : ∃ r s', findOrCreate S name s = (r, s') := ⟨_, _, rfl⟩
  rw [hfoc]
  cases r with
  | error code =>
      rw [ramfsWriteFile_error hfoc]
      exact ⟨fun _ => rfl, rfl⟩
  | ok i =>
      by_cases hreg : (s'.file i).isDirectory = 0#32
      · by_cases hcap : (s'.file i).capacity < size
        · by_cases hnull : (s'.malloc S (grownCapacity size)).1 = NULL
          · rw [ramfsWriteFile_noMemory hfoc hreg (expandBuffer_noMemory hcap hnull)]
            exact ⟨fun _ => rfl, rfl⟩
          · rw [ramfsWriteFile_file hfoc hreg (expandBuffer_grown hcap hnull)]
            refine ⟨fun j => ?_, ?_⟩
            · rw [fillFile_name, grown_name]
            · rw [linked_fillFile, linked_grown]
        · rw [ramfsWriteFile_file hfoc hreg (expandBuffer_enough hcap)]
          exact ⟨fillFile_name data size, linked_fillFile data size⟩
      · rw [ramfsWriteFile_directory hfoc hreg]
        exact ⟨fun _ => rfl, rfl⟩

/-- A call that cuts a name leaves an entry that is not found under it. -/
lemma not_namesFound_call (hinit : s.ramfs.initialized = true) {c : RamFsCall}
    (hc : s.CallCreates S c name) (hlen : 31 < name.chars.length) :
    ¬NamesFound (s.call S c).2 := by
  have hcut : name.chars.take 31 ≠ name.chars := fun h => by
    have := congrArg List.length h
    rw [List.length_take] at this
    omega
  -- the entry is stored under a cut name, and no lookup of the full name can find it
  have hlost : ∀ (u : Shell σ) slot dir, Linked u.trace slot name dir →
      (u.file slot).name.text = name.chars.take 31 → ¬NamesFound u := by
    intro u slot dir hl ht hu
    have he := entry_of_find (hu.found slot name dir hl)
    exact hcut (ht.symm.trans he.2.2)
  cases c with
  | create n isDirectory =>
      obtain ⟨rfl, hc⟩ := hc
      obtain ⟨slot, hl, ht, -⟩ := hc.stored hinit
      exact hlost _ slot _ hl ht
  | write n data size =>
      obtain ⟨rfl, hc⟩ := hc
      obtain ⟨slot, hl, ht, -⟩ := hc.stored hinit
      obtain ⟨hname, htrace⟩ := ramfsWriteFile_names (S := S) (s := s) n data size
      have hfoc : findOrCreate S n s = ramfsCreate S n 0#32 s := by rw [findOrCreate, hc.1]
      rw [hfoc] at hname htrace
      refine hlost _ slot s.ramfs.currentDir ?_ ?_
      · change Linked (ramfsWriteFile S n data size s).2.trace _ _ _
        rw [htrace]
        exact hl
      · change ((ramfsWriteFile S n data size s).2.file slot).name.text = _
        rw [hname]
        exact ht
  | delete n => exact absurd hc id
  | read n bufferSize => exact absurd hc id
  | cd target => exact absurd hc id

/-- **Names** along a run: no two entries but the root share parent and stored name, and every
created entry is found until it is deleted, exactly when no call creates an entry under a name
of more than 31 characters. -/
theorem Shell.run_names_iff {ok : Shell σ → RamFsCall → Prop} {cs : List RamFsCall}
    (hs : s.Started) (hrun : Run (Shell.step S) ok s cs s') :
    (∀ pre c post u, cs = pre ++ c :: post → Run (Shell.step S) ok s pre u →
        ∀ name, u.CallCreates S c name → name.chars.length ≤ 31) ↔
      ∀ pre post u, cs = pre ++ post → Run (Shell.step S) ok s pre u → NamesFound u := by
  refine Run.forall_prefix_iff (P := fun u => NamesOk u ∧ u.ramfs.initialized = true)
    (fun u hu => hu.1.namesFound) ?_ ?_ ⟨hs.namesOk, hs.initialized⟩ hrun
  · rintro u c u' ⟨hu, hinit⟩ - hcut hstep
    obtain rfl := Option.some.inj hstep
    exact ⟨hu.call hinit hcut,
      (Shell.call_actions hinit (u.permits_all c)).initialized.trans hinit⟩
  · rintro u c u' ⟨-, hinit⟩ - hcut hstep
    obtain rfl := Option.some.inj hstep
    simp only [not_forall, not_le] at hcut
    obtain ⟨name, hc, hlen⟩ := hcut
    exact not_namesFound_call hinit hc hlen

/-- A run that creates an entry and deletes it. -/
theorem Shell.run_names_iff_bump :
    ∃ s', Run (Shell.step bumpCalls) (fun _ _ => True) bumpShell
        [.create dotDot 1#32, .delete dotDot] s' ∧ NamesFound s' := by
  have hrun : Run (Shell.step bumpCalls) (fun _ _ => True) bumpShell
      [.create dotDot 1#32, .delete dotDot] _ := .cons trivial rfl (.cons trivial rfl (.nil _))
  refine ⟨_, hrun, (Shell.run_names_iff bumpShell_started hrun).mp ?_ _ [] _ (by simp) hrun⟩
  intro pre c post u hcs hu name hc
  have hmem : c ∈ [RamFsCall.create dotDot 1#32, .delete dotDot] := by rw [hcs]; simp
  rcases List.mem_pair.mp hmem with rfl | rfl
  · obtain ⟨rfl, -⟩ := hc
    decide
  · exact absurd hc id

/-- A name of 32 characters. -/
def longName : CString := ⟨List.replicate 32 97#8, by decide⟩

/-- Two directories of the name, one behind the other: the second call does not find the
first one's. -/
theorem create_longName_twice :
    ∃ s', Run (Shell.step bumpCalls) (fun _ _ => True) bumpShell
        [.create longName 1#32, .create longName 1#32] s' ∧
      (s'.file 1).inUse = true ∧ (s'.file 2).inUse = true ∧
      (s'.file 1).parentIndex = (s'.file 2).parentIndex ∧
      (s'.file 1).name.text = (s'.file 2).name.text ∧
      ramfsFindFile longName 0 s'.ramfs = none ∧ ¬NamesFound s' := by
  have hrun : Run (Shell.step bumpCalls) (fun _ _ => True) bumpShell
      [.create longName 1#32, .create longName 1#32] _ :=
    .cons trivial rfl (.cons trivial rfl (.nil _))
  have htwo : let s' := ((bumpShell.call bumpCalls (.create longName 1#32)).2.call bumpCalls
        (.create longName 1#32)).2
      (s'.file 1).inUse = true ∧ (s'.file 2).inUse = true ∧
        (s'.file 1).parentIndex = (s'.file 2).parentIndex ∧
        (s'.file 1).name.text = (s'.file 2).name.text ∧
        ramfsFindFile longName 0 s'.ramfs = none := by
    decide +kernel
  obtain ⟨h1, h2, hp, ht, hf⟩ := htwo
  refine ⟨_, hrun, h1, h2, hp, ht, hf, fun h => ?_⟩
  exact absurd (h.unique 1 2 (by decide) (by decide) h1 h2 hp ht) (by decide)

end Names

end MiqOSoft
