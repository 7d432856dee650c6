import MiqOSoft.Shell.Files
import MiqOSoft.Shell.RamFsSystem

/-!
The RAM file system, over the kernel's heap and between the calls of other clients, is the tree of
files that it stands for.

* `Shell.Ordered.call`: a call whose names are not cut keeps the tree and the names in order.
* `Written`: what a write has done to the table, on each of its paths.
* `ShellWorld.step_holds`: what the shell holds after a call, and what the call answers, is what
  `Files.Step` allows.
* `ShellWorld.Keeps`: the invariant of a shell that holds files, whoever makes the next call.
* `files_refined`: so the answers to all calls of a run are those of a tree of files.
-/

namespace MiqOSoft

open Machine Forest Tiling Transition

variable {σ : Type*}

/-! ### Order -/

section Order

variable {S : SysCalls σ} {G : Scope} {s s' : Shell σ} {c : RamFsCall}

/-- No action touches the root. -/
lemma Action.file_zero (h : Action S G s s') (hs : TreeOk s.ramfs) : s'.file 0 = s.file 0 := by
  have huse := mem_used.mp hs.root_mem
  have hne : ∀ slot, (s.file slot).inUse = false → 0 ≠ slot := by
    rintro slot hfree rfl
    exact Bool.false_ne_true (hfree.symm.trans huse)
  have hdir : ∀ i, (s.file i).isDirectory = 0#32 → 0 ≠ i := by
    rintro i hreg rfl
    exact hs.root_directory hreg
  cases h with
  | noMemory size hnull => rfl
  | scratch slot f hfree hf hdata => exact Function.update_of_ne (hne slot hfree) _ _
  | createFile name slot hname hfind hfree hmem =>
      exact Function.update_of_ne (hne slot hfree) _ _
  | createDirectory name slot isDirectory hname hfind hfree hd =>
      exact Function.update_of_ne (hne slot hfree) _ _
  | delete i hmay hi hparent hempty =>
      rw [Shell.file, Shell.unlink, Shell.release_ramfs]
      refine Function.update_of_ne ?_ _ _
      rcases hempty with hreg | hleaf
      · exact hdir i hreg
      · rintro rfl
        exact hleaf 0 huse hs.root_parent
  | grow i size hmay hsized hi hreg hcap hmem =>
      rw [Shell.file, Shell.grown_files]
      exact Function.update_of_ne (hdir i hreg) _ _
  | fill i data size hmay hsized hi hreg hsize =>
      rw [Shell.file, fillFile_files]
      exact Function.update_of_ne (hdir i hreg) _ _
  | chdir => rfl

/-- A call whose names are not cut keeps the tree and the names. -/
lemma Shell.Ordered.call (h : s.Ordered) (hinit : s.ramfs.initialized = true) (hc : c.Uncut) :
    (s.call S c).2.Ordered := by
  have hacts := Shell.call_actions (S := S) hinit (s.permits_all c)
  have hroot : TreeOk (s.call S c).2.ramfs ∧ (s.call S c).2.file 0 = s.file 0 :=
    hacts.invariant (P := fun u : Shell σ => TreeOk u.ramfs ∧ u.file 0 = s.file 0)
      (fun u u' hu hact => ⟨hact.treeOk hu.1, (hact.file_zero hu.1).trans hu.2⟩) ⟨h.tree, rfl⟩
  refine ⟨hroot.1, h.names.call hinit fun name hn => hc.creates hn, ?_⟩
  rw [hroot.2]
  exact h.root

lemma Shell.Started.ordered (h : s.Started) : s.Ordered where
  tree := by
    rw [h.ramfs_eq]
    exact treeOk_initial
  names := h.namesOk
  root := by
    rw [Shell.file, h.ramfs_eq]
    decide

end Order

/-! ### What a write does to the table -/

section Written

variable {S : SysCalls σ} {s : Shell σ} {name : CString} {data : ℕ → Byte} {size : Word}

/-- What `ramfs_write_file` returns and leaves. -/
inductive Written (S : SysCalls σ) (name : CString) (data : ℕ → Byte) (size : Word)
    (s : Shell σ) : Word × Shell σ → Prop
  | refused {r : Word} {s' : Shell σ}
      (hfind : ramfsFindFile name s.ramfs.currentDir s.ramfs = none) (hr : r = -2#32 ∨ r = -3#32)
      (hfiles : s'.ramfs.files = s.ramfs.files ∨ ∃ slot f, (s.file slot).inUse = false ∧
        f.inUse = false ∧ s'.ramfs.files = Function.update s.ramfs.files slot f)
      (hcur : s'.ramfs.currentDir = s.ramfs.currentDir) : Written S name data size s (r, s')
  | directory {i : Fin 64} (hfind : ramfsFindFile name s.ramfs.currentDir s.ramfs = some i)
      (hdir : (s.file i).isDirectory ≠ 0#32) : Written S name data size s (-1#32, s)
  | noMemory {i : Fin 64} {n : Word}
      (hfind : ramfsFindFile name s.ramfs.currentDir s.ramfs = some i)
      (hreg : (s.file i).isDirectory = 0#32) (hnull : (s.malloc S n).1 = NULL) :
      Written S name data size s (-3#32, (s.malloc S n).2)
  | left {slot : Fin 64} {f : RamFile} {s' : Shell σ}
      (hfind : ramfsFindFile name s.ramfs.currentDir s.ramfs = none)
      (hfree : (s.file slot).inUse = false)
      (hf : f.inUse = true ∧ f.isDirectory = 0#32 ∧ f.parentIndex = s.ramfs.currentDir ∧
        f.name.text = name.chars ∧ f.size = 0#32)
      (hfiles : s'.ramfs.files = Function.update s.ramfs.files slot f)
      (hcur : s'.ramfs.currentDir = s.ramfs.currentDir) : Written S name data size s (-3#32, s')
  | filled {i : Fin 64} {f : RamFile} {u : Shell σ}
      (hfind : ramfsFindFile name s.ramfs.currentDir s.ramfs = some i ∨
        ramfsFindFile name s.ramfs.currentDir s.ramfs = none ∧ (s.file i).inUse = false)
      (hf : f.inUse = true ∧ f.isDirectory = 0#32 ∧ f.parentIndex = s.ramfs.currentDir ∧
        f.name.text = name.chars)
      (hreg : ∀ j, ramfsFindFile name s.ramfs.currentDir s.ramfs = some j →
        (s.file j).isDirectory = 0#32)
      (hfiles : u.ramfs.files = Function.update s.ramfs.files i f)
      (hcur : u.ramfs.currentDir = s.ramfs.currentDir) :
      Written S name data size s (size, fillFile i data size u)

/-- The end of a write, behind the search: the file is there. -/
lemma written_of_found {i : Fin 64} {s' : Shell σ} {f : RamFile}
    (hfoc : findOrCreate S name s = (.ok i, s'))
    (hfind : ramfsFindFile name s.ramfs.currentDir s.ramfs = some i ∧ s' = s ∨
      ramfsFindFile name s.ramfs.currentDir s.ramfs = none ∧ (s.file i).inUse = false ∧
        f.size = 0#32)
    (hf : f.inUse = true ∧ f.isDirectory = 0#32 ∧ f.parentIndex = s.ramfs.currentDir ∧
      f.name.text = name.chars)
    (hfiles : s'.ramfs.files = Function.update s.ramfs.files i f)
    (hcur : s'.ramfs.currentDir = s.ramfs.currentDir) :
    Written S name data size s (ramfsWriteFile S name data size s) := by
  have hfile : s'.file i = f := by rw [Shell.file, hfiles, Function.update_self]
  have hreg : (s'.file i).isDirectory = 0#32 := by
    rw [hfile]
    exact hf.2.1
  have hfind' := hfind.imp And.left fun h => (⟨h.1, h.2.1⟩ : _ ∧ _)
  have hregs : ∀ j, ramfsFindFile name s.ramfs.currentDir s.ramfs = some j →
      (s.file j).isDirectory = 0#32 := by
    intro j hj
    rcases hfind with ⟨hi, rfl⟩ | ⟨hnone, -⟩
    · obtain rfl := Option.some.inj (hi.symm.trans hj)
      exact hreg
    · exact absurd (hnone.symm.trans hj) (Option.some_ne_none j).symm
  by_cases hcap : (s'.file i).capacity < size
  · by_cases hnull : (s'.malloc S (grownCapacity size)).1 = NULL
    · rw [ramfsWriteFile_noMemory hfoc hreg (expandBuffer_noMemory hcap hnull)]
      rcases hfind with ⟨hi, rfl⟩ | ⟨hnone, hfree, hsize⟩
      · exact .noMemory hi hreg hnull
      · exact .left hnone hfree ⟨hf.1, hf.2.1, hf.2.2.1, hf.2.2.2, hsize⟩ hfiles hcur
    · rw [ramfsWriteFile_file hfoc hreg (expandBuffer_grown hcap hnull)]
      refine .filled (f := { f with
        data := (s'.malloc S (grownCapacity size)).1, capacity := grownCapacity size })
        hfind' hf hregs ?_ ?_
      · rw [Shell.grown_files, hfile, hfiles, Function.update_idem]
      · rw [Shell.grown_ramfs]
        exact hcur
  · rw [ramfsWriteFile_file hfoc hreg (expandBuffer_enough hcap)]
    exact .filled hfind' hf hregs hfiles hcur

/-- **What a write does**, for a name that is not cut. -/
lemma ramfsWriteFile_written (hinit : s.ramfs.initialized = true) (hname : name.chars.length ≤ 31)
    (data : ℕ → Byte) (size : Word) :
    Written S name data size s (ramfsWriteFile S name data size s) := by
  cases hfind : ramfsFindFile name s.ramfs.currentDir s.ramfs with
  | some i =>
      have hfoc : findOrCreate S name s = (.ok i, s) := by rw [findOrCreate, hfind]
      have hentry := entry_of_find hfind
      by_cases hreg : (s.file i).isDirectory = 0#32
      · exact written_of_found (f := s.file i) hfoc (.inl ⟨hfind, rfl⟩)
          ⟨hentry.1, hreg, hentry.2.1, hentry.2.2⟩ (Function.update_eq_self ..).symm rfl
      · rw [ramfsWriteFile_directory hfoc hreg]
        exact .directory hfind hreg
  | none =>
      have hcreate : findOrCreate S name s = ramfsCreate S name 0#32 s := by
        rw [findOrCreate, hfind]
      cases hslot : ramfsFindFreeSlot s.ramfs with
      | none =>
          rw [ramfsWriteFile_error (hcreate.trans (ramfsCreate_full hinit hfind hslot))]
          exact .refused hfind (.inl rfl) (.inl rfl) rfl
      | some slot =>
          have hfree := free_of_findFreeSlot hslot
          by_cases hnull : (s.malloc S 256#32).1 = NULL
          · rw [ramfsWriteFile_error (hcreate.trans (ramfsCreate_noMemory hinit hfind hslot hnull))]
            exact .refused hfind (.inr rfl) (.inr ⟨slot, { s.file slot with
              name := (s.file slot).name.assign name, data := NULL }, hfree, hfree, rfl⟩) rfl
          · exact written_of_found
              (hcreate.trans (ramfsCreate_file hinit hfind hslot hnull))
              (.inr ⟨hfind, hfree, rfl⟩)
              ⟨rfl, rfl, rfl, FileName.text_assign_of_le _ hname⟩ rfl rfl

end Written

/-! ### Calls -/

section Calls

variable {s s' : Shell Kernel} {f : Files} {name : CString} {i j : Fin 64} {g : RamFile}
  {size : Word}

/-- The bytes of a file that is kept. -/
lemma KeptFile.bytes (h : KeptFile j s s') (hcaps : CapsOk s.ramfs) (hj : s.ramfs.Regular j) :
    ∀ k < (s.file j).size.toNat, s'.mem ((s.file j).data + BitVec.ofNat 32 k) =
      s.mem ((s.file j).data + BitVec.ofNat 32 k) := by
  intro k hk
  have hle := (hcaps.file hj).2.2
  exact h.2 _ (add_ofNat_mem_span (hk.trans_le hle) (BitVec.isLt _).le)

/-- What a file without bytes, or a directory, is. -/
lemma Shell.nodeOf_new (hfiles : s'.ramfs.files = Function.update s.ramfs.files i g)
    (hsize : g.size = 0#32) : s'.nodeOf i = newNode g.isDirectory := by
  have hfile : s'.file i = g := by rw [Shell.file, hfiles, Function.update_self]
  rw [Shell.nodeOf, newNode, hfile, hsize]
  rfl

/-- A free slot gets an entry of the current directory. -/
lemma Shell.table_new (hfiles : s'.ramfs.files = Function.update s.ramfs.files i g)
    (hkept : ∀ j, s.ramfs.Regular j → j ≠ i → KeptFile j s s') (hcaps : CapsOk s.ramfs)
    (hg : g.inUse = true ∧ g.parentIndex = s.ramfs.currentDir ∧ g.name.text = name.chars) :
    s'.table = Function.update s.table i
      (some ⟨s.ramfs.currentDir, name.chars, s'.nodeOf i⟩) := by
  have hfile : s'.file i = g := by rw [Shell.file, hfiles, Function.update_self]
  have hnew : s'.table i = some ⟨s.ramfs.currentDir, name.chars, s'.nodeOf i⟩ :=
    Shell.table_eq_some.mpr ⟨by rw [hfile]; exact hg.1, by rw [hfile]; exact hg.2.1,
      by rw [hfile]; exact hg.2.2, rfl⟩
  rw [← hnew]
  exact Shell.table_update hfiles fun j hji hj => (hkept j hj hji).bytes hcaps hj

/-- The entries stay when a slot that is free stays free. -/
lemma Shell.table_scratch (hfiles : s'.ramfs.files = s.ramfs.files ∨ ∃ slot g,
      (s.file slot).inUse = false ∧ g.inUse = false ∧
        s'.ramfs.files = Function.update s.ramfs.files slot g)
    (hkept : ∀ j, s.ramfs.Regular j → KeptFile j s s') (hcaps : CapsOk s.ramfs) :
    s'.table = s.table := by
  rcases hfiles with hfiles | ⟨slot, g, hfree, hg, hfiles⟩
  · exact Shell.table_same hfiles fun j hj => (hkept j hj).bytes hcaps hj
  · have hfile : s'.file slot = g := by rw [Shell.file, hfiles, Function.update_self]
    rw [Shell.table_update hfiles fun j _ hj => (hkept j hj).bytes hcaps hj,
      Shell.table_of_free (hfile ▸ hg), ← Shell.table_of_free hfree, Function.update_eq_self]

/-- `ramfs_create`. -/
lemma Shell.Holds.create (h : s.Holds f) (hs : s.Ordered) (hcaps : CapsOk s.ramfs)
    (hinit : s.ramfs.initialized = true) (hname : name.chars.length ≤ 31) (isDirectory : Word)
    (hkept : ∀ j, s.ramfs.Regular j → KeptFile j s (ramfsCreate sysCalls name isDirectory s).2) :
    ∃ f', f.Step (.create name isDirectory)
        (createCode (ramfsCreate sysCalls name isDirectory s).1, []) f' ∧
      (ramfsCreate sysCalls name isDirectory s).2.Holds f' := by
  cases hfind : ramfsFindFile name s.ramfs.currentDir s.ramfs with
  | some i =>
      obtain ⟨p, hlookup, -⟩ := h.node_of_find hs hfind
      rw [ramfsCreate_exists hinit hfind]
      exact ⟨f, .exists hlookup, h⟩
  | none =>
      have hlookup := h.lookup_of_not_find hs hfind
      have hn := Files.node_eq_none_of_lookup hlookup
      cases hslot : ramfsFindFreeSlot s.ramfs with
      | none =>
          rw [ramfsCreate_full hinit hfind hslot]
          exact ⟨f, .createRefused hlookup (.inl rfl), h⟩
      | some slot =>
          have hfree := free_of_findFreeSlot hslot
          have htext := (s.file slot).name.text_assign_of_le hname
          by_cases hdir : isDirectory = 0#32
          · subst hdir
            by_cases hnull : (s.malloc sysCalls 256#32).1 = NULL
            · rw [ramfsCreate_noMemory hinit hfind hslot hnull] at hkept ⊢
              refine ⟨f, .createRefused hlookup (.inr rfl), h.same (Shell.table_scratch
                (.inr ⟨slot, { s.file slot with
                  name := (s.file slot).name.assign name, data := NULL }, hfree, hfree, rfl⟩)
                hkept hcaps) rfl⟩
            · rw [ramfsCreate_file hinit hfind hslot hnull] at hkept ⊢
              refine ⟨_, .created hlookup (toInt_createCode slot), ?_⟩
              refine h.insert hs hfree ?_ (by rfl) hn
              rw [Shell.table_new rfl (fun j hj _ => hkept j hj) hcaps ⟨rfl, rfl, htext⟩,
                Shell.nodeOf_new rfl rfl]
              rfl
          · rw [ramfsCreate_directory hinit hfind hslot hdir] at hkept ⊢
            refine ⟨_, .created hlookup (toInt_createCode slot), ?_⟩
            refine h.insert hs hfree ?_ (by rfl) hn
            rw [Shell.table_new rfl (fun j hj _ => hkept j hj) hcaps ⟨rfl, rfl, htext⟩,
              Shell.nodeOf_new rfl rfl]
            rfl

/-- `ramfs_delete`. -/
lemma Shell.Holds.delete (h : s.Holds f) (hs : s.Ordered) (hcaps : CapsOk s.ramfs)
    (hkept : ∀ j, s.ramfs.Regular j →
      ramfsFindFile name s.ramfs.currentDir s.ramfs ≠ some j →
        KeptFile j s (ramfsDelete sysCalls name s).2) :
    ∃ f', f.Step (.delete name) ((ramfsDelete sysCalls name s).1, []) f' ∧
      (ramfsDelete sysCalls name s).2.Holds f' := by
  cases hfind : ramfsFindFile name s.ramfs.currentDir s.ramfs with
  | none =>
      rw [ramfsDelete_missing hfind]
      exact ⟨f, .deleteMissing (h.lookup_of_not_find hs hfind), h⟩
  | some i =>
      have hitem := Shell.table_of_find hfind
      by_cases hbusy : (s.file i).isDirectory ≠ 0#32 ∧ hasEntry i s.ramfs = true
      · rw [ramfsDelete_notEmpty hfind hbusy]
        obtain ⟨j, huse, hparent⟩ := hasEntry_iff.mp hbusy.2
        rcases h.lookup_of_find hs hfind with ⟨-, hlookup⟩ | ⟨hi, hlookup, hat⟩
        · exact ⟨f, .notEmpty hlookup (.inl rfl), h⟩
        · have hj : j ≠ 0 := by
            rintro rfl
            exact hi (hparent.symm.trans hs.tree.root_parent)
          have hitem' := Shell.table_of_used huse
          have hat' : At 0 s.table (s.file j).parentIndex (name.chars :: f.cwd) := hparent ▸ hat
          exact ⟨f, .notEmpty hlookup (.inr ⟨_, _, h.tree.node_eq (.child hj hitem' hat') hitem'⟩),
            h⟩
      · have hleaf : ∀ j a, s.table j = some a → a.parent ≠ i := by
          intro j a ha heq
          obtain ⟨huse, hparent, -⟩ := Shell.table_eq_some.mp ha
          rcases not_and_or.mp hbusy with hreg | hempty
          · exact hs.tree.parents j (mem_used.mpr huse) (by
              rw [hparent, heq]
              exact not_not.mp hreg)
          · exact hempty (hasEntry_iff.mpr ⟨j, huse, hparent.trans heq⟩)
        rw [ramfsDelete_found hfind hbusy] at hkept ⊢
        have hfiles : ((s.release sysCalls i).unlink i).ramfs.files =
            Function.update s.ramfs.files i RamFile.zero := by
          rw [Shell.unlink, Shell.release_ramfs]
        have htable : ((s.release sysCalls i).unlink i).table =
            Function.update s.table i none := by
          have hzero : ((s.release sysCalls i).unlink i).table i = none := by
            refine Shell.table_of_free ?_
            rw [Shell.file, hfiles, Function.update_self]
            rfl
          rw [← hzero]
          refine Shell.table_update hfiles fun j hji hj => (hkept j hj ?_).bytes hcaps hj
          rw [hfind]
          exact fun heq => hji (Option.some.inj heq).symm
        have hcur : ((s.release sysCalls i).unlink i).ramfs.currentDir = s.ramfs.currentDir := by
          rw [Shell.unlink, Shell.release_ramfs]
        rcases h.lookup_of_find hs hfind with ⟨rfl, -⟩ | ⟨-, hlookup, hat⟩
        · exact absurd hs.tree.root_parent
            (hleaf 0 _ (Shell.table_of_used (mem_used.mp hs.tree.root_mem)))
        · obtain ⟨hT, hholds⟩ := h.erase hs hat hleaf htable hcur
          exact ⟨_, .deleted hlookup hT, hholds⟩

/-- `ramfs_read_file`. -/
lemma Shell.Holds.read (h : s.Holds f) (hs : s.Ordered) (n : Word) :
    f.Step (.read name n) (ramfsReadFile name n s) f := by
  cases hfind : ramfsFindFile name s.ramfs.currentDir s.ramfs with
  | none =>
      simp only [ramfsReadFile, hfind]
      exact .readMissing (h.lookup_of_not_find hs hfind)
  | some i =>
      obtain ⟨p, hlookup, -, hnode⟩ := h.node_of_find hs hfind
      rw [Shell.nodeOf] at hnode
      by_cases hreg : (s.file i).isDirectory = 0#32
      · rw [if_pos hreg] at hnode
        obtain ⟨hlen, hbytes⟩ := ramfsReadFile_regular hfind hreg n
        have htake : ((List.range (s.file i).size.toNat).map fun k =>
            s.mem ((s.file i).data + BitVec.ofNat 32 k)).take n.toNat =
              (ramfsReadFile name n s).2 := by
          rw [hbytes, ← List.map_take, List.take_range, min_comm]
        have hcode : BitVec.ofNat 32 (ramfsReadFile name n s).2.length =
            (ramfsReadFile name n s).1 := by
          rw [hbytes, List.length_map, List.length_range, ← hlen, BitVec.ofNat_toNat,
            BitVec.setWidth_eq]
        have hstep := Files.Step.read (n := n) hlookup hnode
        rw [htake, hcode] at hstep
        exact hstep
      · rw [if_neg hreg] at hnode
        simp only [ramfsReadFile, hfind, ne_eq, hreg, not_false_eq_true, if_true]
        exact .readDirectory hlookup hnode

/-- A filled file holds the data. -/
lemma Shell.nodeOf_fillFile {u : Shell Kernel} (data : ℕ → Byte)
    (hreg : (u.file i).isDirectory = 0#32) :
    (fillFile i data size u).nodeOf i = .file ((List.range size.toNat).map data) := by
  have hfile : (fillFile i data size u).file i = { u.file i with size := size } := by
    rw [Shell.file, fillFile_files, Function.update_self]
  rw [Shell.nodeOf, hfile, if_pos hreg]
  exact congrArg Node.file (List.map_congr_left fun k hk =>
    fillFile_bytes data (List.mem_range.mp hk))

/-- `ramfs_write_file`. -/
lemma Shell.Holds.writeFile (h : s.Holds f) (hs : s.Ordered) (hcaps : CapsOk s.ramfs)
    (hinit : s.ramfs.initialized = true) (hname : name.chars.length ≤ 31) (data : ℕ → Byte)
    (hkept : ∀ j, s.ramfs.Regular j →
      ramfsFindFile name s.ramfs.currentDir s.ramfs ≠ some j →
        KeptFile j s (ramfsWriteFile sysCalls name data size s).2)
    (hmalloc : ∀ n, (s.malloc sysCalls n).1 = NULL → ∀ j, s.ramfs.Regular j →
      KeptFile j s (s.malloc sysCalls n).2) :
    ∃ f', f.Step (.write name data size) ((ramfsWriteFile sysCalls name data size s).1, []) f' ∧
      (ramfsWriteFile sysCalls name data size s).2.Holds f' := by
  have hwritten := ramfsWriteFile_written (S := sysCalls) hinit hname data size
  obtain ⟨v, hv⟩ : ∃ v, v = ramfsWriteFile sysCalls name data size s := ⟨_, rfl⟩
  rw [← hv] at hwritten hkept ⊢
  have hall : ramfsFindFile name s.ramfs.currentDir s.ramfs = none →
      ∀ j, s.ramfs.Regular j → KeptFile j s v.2 := by
    intro hfind j hj
    refine hkept j hj ?_
    rw [hfind]
    exact (Option.some_ne_none j).symm
  cases hwritten with
  | refused hfind hr hfiles hcur =>
      have hlookup := h.lookup_of_not_find hs hfind
      refine ⟨f, .writeRefused (fun p hp => ?_) (hr.imp (fun heq => ⟨heq, hlookup⟩) id),
        h.same (Shell.table_scratch hfiles (hall hfind) hcaps) hcur⟩
      exact absurd (hp.symm.trans hlookup) (Option.some_ne_none p)
  | @directory i hfind hdir =>
      obtain ⟨p, hlookup, -, hnode⟩ := h.node_of_find hs hfind
      rw [Shell.nodeOf, if_neg hdir] at hnode
      exact ⟨f, .writeDirectory hlookup hnode, h⟩
  | @noMemory i n hfind hreg hnull =>
      obtain ⟨p, hlookup, -, hnode⟩ := h.node_of_find hs hfind
      rw [Shell.nodeOf, if_pos hreg] at hnode
      refine ⟨f, .writeRefused (fun q hq => ?_) (.inr rfl),
        h.same (Shell.table_scratch (.inl rfl) (hmalloc n hnull) hcaps) rfl⟩
      obtain rfl := Option.some.inj (hlookup.symm.trans hq)
      rw [hnode]
      simp
  | left hfind hfree hf hfiles hcur =>
      have hlookup := h.lookup_of_not_find hs hfind
      obtain ⟨huse, hreg, hparent, htext, hsize⟩ := hf
      refine ⟨_, .writeLeft hlookup, h.insert hs hfree ?_ hcur
        (Files.node_eq_none_of_lookup hlookup)⟩
      rw [Shell.table_new hfiles (fun j hj _ => hall hfind j hj) hcaps ⟨huse, hparent, htext⟩,
        Shell.nodeOf_new hfiles hsize, newNode, if_pos hreg]
  | @filled i g u hfind hf hreg hfiles hcur =>
      obtain ⟨huse, hdir, hparent, htext⟩ := hf
      have hfile : u.file i = g := by rw [Shell.file, hfiles, Function.update_self]
      have hfiles' : (fillFile i data size u).ramfs.files =
          Function.update s.ramfs.files i { g with size := size } := by
        rw [fillFile_files, hfile, hfiles, Function.update_idem]
      have hcur' : (fillFile i data size u).ramfs.currentDir = s.ramfs.currentDir := by
        rw [fillFile_ramfs]
        exact hcur
      have hkept' : ∀ j, s.ramfs.Regular j → j ≠ i → KeptFile j s (fillFile i data size u) := by
        intro j hj hji
        rcases hfind with hi | ⟨hnone, -⟩
        · refine hkept j hj ?_
          rw [hi]
          exact fun heq => hji (Option.some.inj heq).symm
        · exact hall hnone j hj
      have htable := Shell.table_new hfiles' hkept' hcaps ⟨huse, hparent, htext⟩
      rw [Shell.nodeOf_fillFile data (hfile ▸ hdir)] at htable
      rcases hfind with hi | ⟨hnone, hfree⟩
      · rcases h.lookup_of_find hs hi with ⟨rfl, -⟩ | ⟨-, hlookup, hat⟩
        · exact absurd (hreg 0 hi) hs.tree.root_directory
        · have hnode := h.tree.node_eq hat (Shell.table_of_find hi)
          dsimp only at hnode
          rw [Shell.nodeOf, if_pos (hreg i hi)] at hnode
          exact ⟨_, .written hlookup ⟨_, hnode⟩, h.write hs hi hat htable hcur' ⟨_, hnode⟩⟩
      · have hlookup := h.lookup_of_not_find hs hnone
        exact ⟨_, .writtenNew hlookup, h.insert hs hfree htable hcur'
          (Files.node_eq_none_of_lookup hlookup)⟩

lemma shellStrcmp_byte_iff (a b : CString) : shellStrcmp a.byte b = 0 ↔ a.chars = b.chars :=
  strcmp_eq_zero_iff a.noNul b.noNul fun _ _ => rfl

/-- Another current directory. -/
lemma Shell.Holds.setDir (h : s.Holds f) {p : List (List Byte)} (hat : At 0 s.table i p)
    (hp : f.tree.node p = some .dir) : (s.setDir i).Holds (f.setCwd p hp) :=
  ⟨h.tree, hat⟩

/-- `cmd_cd`. -/
lemma Shell.Holds.cd (h : s.Holds f) (hs : s.Ordered) (hinit : s.ramfs.initialized = true)
    (target : Option CString) : ∃ f', f.Step (.cd target) ((cmdCd target s).1, []) f' ∧
      (cmdCd target s).2.Holds f' := by
  simp only [cmdCd, ramfsInit_of_initialized hinit]
  cases target with
  | none => exact ⟨f, .cdNowhere, h⟩
  | some target =>
      simp only [shellStrcmp_byte_iff]
      by_cases hup : target.chars = dotDot.chars
      · rw [if_pos hup]
        by_cases hroot : s.ramfs.currentDir = 0
        · have hcwd : f.cwd = [] := (hroot ▸ h.cwd).path_unique .root
          rw [if_neg (not_not.mpr hroot)]
          refine ⟨_, .cdUp hup, h.tree, ?_⟩
          change At 0 s.table s.ramfs.currentDir f.cwd.tail
          rw [hroot, hcwd]
          exact .root
        · rw [if_pos hroot]
          refine ⟨_, .cdUp hup, h.setDir ?_ f.up_dir⟩
          cases hcwd : f.cwd with
          | nil => exact absurd (At.eq_root (hcwd ▸ h.cwd)) hroot
          | cons n p =>
              obtain ⟨-, a, ha, -, hat⟩ := (hcwd ▸ h.cwd).cons_inv
              obtain ⟨-, hparent, -⟩ := Shell.table_eq_some.mp ha
              rw [hparent]
              exact hat
      · rw [if_neg hup]
        by_cases hslash : target.chars = slash.chars
        · rw [if_pos hslash]
          exact ⟨_, .cdRoot hslash, h.setDir .root f.tree.root⟩
        · rw [if_neg hslash]
          cases hfind : ramfsFindFile target s.ramfs.currentDir s.ramfs with
          | none =>
              have hlookup := h.lookup_of_not_find hs hfind
              refine ⟨f, .cdRefused hup hslash fun p hp => ?_, h⟩
              exact absurd (hp.symm.trans hlookup) (Option.some_ne_none p)
          | some i =>
              obtain ⟨p, hlookup, hat, hnode⟩ := h.node_of_find hs hfind
              rw [Shell.nodeOf] at hnode
              by_cases hreg : (s.file i).isDirectory = 0#32
              · rw [if_pos hreg] at hnode
                simp only [if_pos hreg]
                refine ⟨f, .cdRefused hup hslash fun q hq => ?_, h⟩
                obtain rfl := Option.some.inj (hlookup.symm.trans hq)
                rw [hnode]
                simp
              · rw [if_neg hreg] at hnode
                simp only [if_neg hreg]
                exact ⟨_, .cdInto hup hslash hlookup hnode, h.setDir hat hnode⟩

end Calls

/-! ### Runs -/

/-- What a call answers: its result, and the bytes that it delivers. -/
def Shell.reply (S : SysCalls σ) (s : Shell σ) (c : RamFsCall) : Word × List Byte :=
  match c with
  | .read name bufferSize => ramfsReadFile name bufferSize s
  | c => ((s.call S c).1, [])

namespace ShellWorld

variable {L : Rodata} {w w' : ShellWorld} {owned : List Addr} {l : List Seg} {f : Files}

/-- The answers to the calls of the RAM file system, along a run. -/
def answers (L : Rodata) : ShellWorld → List ShellEvent → List (RamFsCall × (Word × List Byte))
  | _, [] => []
  | w, .ramfs c :: es =>
      (c, w.shell.reply sysCalls c) :: answers L ⟨(w.shell.call sysCalls c).2, w.others⟩ es
  | w, .other c :: es =>
      match FsWorld.step L ⟨w.shell.kernel, w.others⟩ c with
      | some u => answers L (w.serve u) es
      | none => []

/-- **A call does what the files allow.** -/
theorem step_holds (h : w.Sound L owned l) (hs : w.shell.Ordered) (hf : w.shell.Holds f)
    {c : RamFsCall} (hc : w.Tame L (.ramfs c)) (huncut : c.Uncut) :
    ∃ f', f.Step c (w.shell.reply sysCalls c) f' ∧ (w.shell.call sysCalls c).2.Holds f' := by
  obtain ⟨-, -, -, -, -, hkept⟩ := step_ramfs h hc
  cases c with
  | create name isDirectory =>
      exact hf.create hs h.caps h.initialized huncut isDirectory fun j hj => hkept j hj id
  | delete name => exact hf.delete hs h.caps hkept
  | write name data size =>
      refine hf.writeFile hs h.caps h.initialized huncut data hkept fun n hnull j hj => ?_
      have hreach : Reaches L w.others (fun _ => False) w.shell owned
          (w.shell.malloc sysCalls n).2 [.sysMalloc n] owned l :=
        reaches_noMemory h.inv h.buffers hnull
      exact ⟨hreach.file j hj id, hreach.kept j hj id⟩
  | read name bufferSize => exact ⟨f, hf.read hs bufferSize, hf⟩
  | cd target => exact hf.cd hs h.initialized target

/-- A call of another client changes no file. -/
lemma serve_holds (h : w.Sound L owned l) (hf : w.shell.Holds f) {c : Call}
    (hc : w.Tame L (.other c)) {u : FsWorld}
    (hu : FsWorld.step L ⟨w.shell.kernel, w.others⟩ c = some u) : (w.serve u).shell.Holds f := by
  obtain ⟨-, -, -, -, hkept⟩ := step_other h hc hu
  exact hf.same (Shell.table_scratch (.inl rfl) hkept h.caps) rfl

/-- The shell that is started holds the root alone. -/
lemma boot_holds (L : Rodata) (k : Kernel) : (boot L k).shell.Holds .empty := by
  have hfree : ∀ i, i ≠ 0 → (boot L k).shell.table i = none := by
    intro i hi
    refine Shell.table_of_free ?_
    rw [Shell.file, (boot_started L k).ramfs_eq]
    simp [RamFs.initial, hi, RamFile.zero]
  have hroot := (boot_started L k).ordered.tableOk.root_dir
  refine ⟨fun p x => ?_, ?_⟩
  · constructor
    · intro hnode
      obtain ⟨a, ha, hdir⟩ := hroot
      cases p with
      | nil => exact ⟨0, a, .root, ha, hdir.trans (Option.some.inj hnode)⟩
      | cons n p => exact absurd hnode (by simp [Files.empty, Tree.empty])
    · rintro ⟨i, a, hat, ha, rfl⟩
      cases hat with
      | root =>
          obtain ⟨b, hb, hdir⟩ := hroot
          obtain rfl := Option.some.inj (ha.symm.trans hb)
          rw [hdir]
          rfl
      | child hi hb => exact absurd (hb.symm.trans (hfree i hi)) (Option.some_ne_none _)
  · have hcur : (boot L k).shell.ramfs.currentDir = 0 := by
      rw [(boot_started L k).ramfs_eq]
      rfl
    rw [hcur]
    exact .root

/-- The invariant of a shell that holds files. -/
structure Keeps (L : Rodata) (w : ShellWorld) (f : Files) : Prop where
  sound : ∃ owned l, w.Sound L owned l
  ordered : w.shell.Ordered
  holds : w.shell.Holds f

namespace Keeps

variable {L : Rodata} {w u : ShellWorld} {f : Files}

lemma initialized (h : w.Keeps L f) : w.shell.ramfs.initialized = true := by
  obtain ⟨owned, l, hsound⟩ := h.sound
  exact hsound.initialized

/-- A call of the file system. -/
lemma call (h : w.Keeps L f) {c : RamFsCall} (hc : w.Tame L (.ramfs c)) (huncut : c.Uncut) :
    ∃ f', f.Step c (w.shell.reply sysCalls c) f' ∧
      Keeps L ⟨(w.shell.call sysCalls c).2, w.others⟩ f' := by
  obtain ⟨owned, l, hsound⟩ := h.sound
  obtain ⟨-, owned', l', hsound', -⟩ := step_refines hsound hc rfl
  obtain ⟨f', hstep, hholds⟩ := step_holds hsound h.ordered h.holds hc huncut
  exact ⟨f', hstep, ⟨owned', l', hsound'⟩, h.ordered.call hsound.initialized huncut, hholds⟩

/-- A call of another client. -/
lemma other (h : w.Keeps L f) {c : Call} (hc : w.Tame L (.other c))
    (hstep : w.step L (.other c) = some u) : u.Keeps L f := by
  obtain ⟨owned, l, hsound⟩ := h.sound
  obtain ⟨-, owned', l', hsound', -⟩ := step_refines hsound hc hstep
  obtain ⟨x, hx, rfl⟩ := Option.map_eq_some_iff.mp hstep
  have hnames : NamesOk (w.serve x).shell :=
    h.ordered.names.congr rfl (fun _ => rfl) fun _ _ => ⟨rfl, rfl⟩
  exact ⟨⟨owned', l', hsound'⟩, ⟨h.ordered.tree, hnames, h.ordered.root⟩,
    serve_holds hsound h.holds hc hx⟩

/-- The shell that is started. -/
lemma boot {k : Kernel} (hk : k.Cold) : (boot L k).Keeps L .empty := by
  obtain ⟨l, hboot⟩ := boot_sound (L := L) hk
  exact ⟨⟨[], l, hboot⟩, (boot_started L k).ordered, boot_holds L k⟩

end Keeps

/-- The run of a shell that holds files. -/
lemma run_holds {es : List ShellEvent}
    (hrun : Run (step L) (fun w e => w.Tame L e ∧ e.Uncut) w es w') (h : w.Keeps L f) :
    ∃ f', Trace (fun f o f' => Files.Step f o.1 o.2 f') f (answers L w es) f' ∧
      w'.Keeps L f' := by
  induction hrun generalizing f with
  | nil w => exact ⟨f, .nil f, h⟩
  | @cons w u v e es he hstep _ ih =>
      obtain ⟨htame, huncut⟩ := he
      cases e with
      | ramfs c =>
          obtain ⟨f', hfstep, hkeeps⟩ := h.call htame huncut
          obtain rfl := Option.some.inj hstep
          obtain ⟨f'', htrace, hkeeps'⟩ := ih hkeeps
          exact ⟨f'', .cons hfstep htrace, hkeeps'⟩
      | other c =>
          obtain ⟨f', htrace, hkeeps⟩ := ih (h.other htame hstep)
          obtain ⟨x, hx, rfl⟩ := Option.map_eq_some_iff.mp hstep
          refine ⟨f', ?_, hkeeps⟩
          rw [answers, hx]
          exact htrace

end ShellWorld

/-- **The RAM file system is a tree of files.**  In any order of its calls and those of the other
clients of the kernel, the answers to its calls are those of a tree of directories and files with a
current directory, and in the end the shell holds that tree. -/
theorem files_refined {L : Rodata} {k : Kernel} {es : List ShellEvent} {w : ShellWorld}
    (hk : k.Cold) (hrun : Run (ShellWorld.step L) (fun w e => w.Tame L e ∧ e.Uncut)
      (ShellWorld.boot L k) es w) :
    ∃ f, Trace (fun f o f' => Files.Step f o.1 o.2 f') .empty
        (ShellWorld.answers L (ShellWorld.boot L k) es) f ∧ w.shell.Holds f := by
  obtain ⟨f, htrace, hkeeps⟩ := ShellWorld.run_holds hrun (.boot hk)
  exact ⟨f, htrace, hkeeps.holds⟩

/-- A file is written, and a client requests a block. -/
theorem files_refined_two : ∃ w f,
    Run (ShellWorld.step sampleRodata) (fun w e => w.Tame sampleRodata e ∧ e.Uncut) startWorld
        [.ramfs writeThree, .other (.sysMalloc 64#32)] w ∧ w.shell.Holds f := by
  obtain ⟨w, hs⟩ := step_writeThree
  have huncut : (ShellEvent.ramfs writeThree).Uncut := show dotDot.chars.length ≤ 31 by decide
  have hrun : Run (ShellWorld.step sampleRodata) (fun w e => w.Tame sampleRodata e ∧ e.Uncut)
      startWorld [.ramfs writeThree, .other (.sysMalloc 64#32)] w :=
    .cons ⟨tame_writeThree _, huncut⟩ rfl (.cons ⟨tame_sysMalloc _ _, trivial⟩ hs (.nil w))
  obtain ⟨f, -, hholds⟩ := files_refined blankKernel_cold hrun
  exact ⟨w, f, hrun, hholds⟩

end MiqOSoft
