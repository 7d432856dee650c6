import MiqOSoft.Forest.Named
import MiqOSoft.Shell.RamFsBuffers
import MiqOSoft.Shell.RamFsTree

/-!
What the RAM file system is for: a tree of directories and files, and a current directory.

* `Files`: the tree and the directory.  `Files.lookup`: where a name leads; the root is an entry of
  itself, under the name `/`.
* `Files.Step`: what a call may do to them, and what it answers.  It may be refused for lack of
  slots or memory, and a write that is refused may leave an empty file.
* `Shell.table`: the entries of `g_ramfs` with their contents.
* `Shell.Holds`: the shell holds the files.  Lookups agree (`Shell.Holds.lookup_of_find`), and a
  change of one slot is a change of one path (`Shell.Holds.insert`, `Shell.Holds.erase`,
  `Shell.Holds.write`).
-/

namespace MiqOSoft

open Machine Forest

/-! ### The files -/

/-- A tree of directories and files, and the path of the current directory. -/
structure Files where
  tree : Tree (List Byte) (List Byte)
  cwd : List (List Byte)
  cwd_dir : tree.node cwd = some .dir

/-- What `ramfs_create` makes. -/
def newNode (isDirectory : Word) : Node (List Byte) :=
  if isDirectory = 0#32 then .file [] else .dir

namespace Files

/-- The root alone. -/
def empty : Files := ⟨.empty, [], rfl⟩

/-- Where a name of the current directory leads. -/
def lookup (f : Files) (name : CString) : Option (List (List Byte)) :=
  if f.cwd = [] ∧ name.chars = slash.chars then some []
  else (f.tree.node (name.chars :: f.cwd)).map fun _ => name.chars :: f.cwd

/-- The name is free. -/
lemma node_eq_none_of_lookup {f : Files} {name : CString} (h : f.lookup name = none) :
    f.tree.node (name.chars :: f.cwd) = none := by
  rw [lookup] at h
  split_ifs at h
  exact Option.map_eq_none_iff.mp h

/-- A new entry of the current directory. -/
def insert (f : Files) (n : List Byte) (x : Node (List Byte))
    (hn : f.tree.node (n :: f.cwd) = none) : Files where
  tree := f.tree.insert n f.cwd x f.cwd_dir hn
  cwd := f.cwd
  cwd_dir := (Function.update_of_ne (List.cons_ne_self n f.cwd).symm _ _).trans f.cwd_dir

/-- An entry of the current directory is removed. -/
def erase (f : Files) (n : List Byte) (hleaf : ∀ m, f.tree.node (m :: n :: f.cwd) = none) :
    Files where
  tree := f.tree.erase n f.cwd hleaf
  cwd := f.cwd
  cwd_dir := (Function.update_of_ne (List.cons_ne_self n f.cwd).symm _ _).trans f.cwd_dir

/-- A file of the current directory gets other data. -/
def write (f : Files) (n : List Byte) (d : List Byte)
    (hfile : ∃ d', f.tree.node (n :: f.cwd) = some (.file d')) : Files where
  tree := f.tree.write n f.cwd d hfile
  cwd := f.cwd
  cwd_dir := (Function.update_of_ne (List.cons_ne_self n f.cwd).symm _ _).trans f.cwd_dir

/-- Another directory becomes the current one. -/
def setCwd (f : Files) (p : List (List Byte)) (hp : f.tree.node p = some .dir) : Files :=
  ⟨f.tree, p, hp⟩

/-- The directory above, if there is one. -/
lemma up_dir (f : Files) : f.tree.node f.cwd.tail = some .dir := by
  have h := f.cwd_dir
  cases hcwd : f.cwd with
  | nil => exact f.tree.root
  | cons n p =>
      rw [hcwd] at h
      exact f.tree.parent n p _ h

/-- **What a call may do**, and what it answers: its result, and the bytes that are read. -/
inductive Step (f : Files) : RamFsCall → Word × List Byte → Files → Prop
  | created {name : CString} {isDirectory r : Word} (h : f.lookup name = none)
      (hr : 0 ≤ r.toInt) : Step f (.create name isDirectory) (r, [])
        (f.insert name.chars (newNode isDirectory) (node_eq_none_of_lookup h))
  | exists {name : CString} {isDirectory : Word} {p : List (List Byte)}
      (h : f.lookup name = some p) : Step f (.create name isDirectory) (-1#32, []) f
  | createRefused {name : CString} {isDirectory r : Word} (h : f.lookup name = none)
      (hr : r = -2#32 ∨ r = -3#32) : Step f (.create name isDirectory) (r, []) f
  | deleted {name : CString} (h : f.lookup name = some (name.chars :: f.cwd))
      (hleaf : ∀ m, f.tree.node (m :: name.chars :: f.cwd) = none) :
      Step f (.delete name) (0#32, []) (f.erase name.chars hleaf)
  | deleteMissing {name : CString} (h : f.lookup name = none) :
      Step f (.delete name) (-1#32, []) f
  | notEmpty {name : CString} {p : List (List Byte)} (h : f.lookup name = some p)
      (hbusy : p = [] ∨ ∃ m x, f.tree.node (m :: p) = some x) :
      Step f (.delete name) (-2#32, []) f
  | writtenNew {name : CString} {data : ℕ → Byte} {size : Word} (h : f.lookup name = none) :
      Step f (.write name data size) (size, []) (f.insert name.chars
        (.file ((List.range size.toNat).map data)) (node_eq_none_of_lookup h))
  | written {name : CString} {data : ℕ → Byte} {size : Word}
      (h : f.lookup name = some (name.chars :: f.cwd))
      (hfile : ∃ d, f.tree.node (name.chars :: f.cwd) = some (.file d)) :
      Step f (.write name data size) (size, [])
        (f.write name.chars ((List.range size.toNat).map data) hfile)
  | writeDirectory {name : CString} {data : ℕ → Byte} {size : Word} {p : List (List Byte)}
      (h : f.lookup name = some p) (hdir : f.tree.node p = some .dir) :
      Step f (.write name data size) (-1#32, []) f
  | writeRefused {name : CString} {data : ℕ → Byte} {size r : Word}
      (h : ∀ p, f.lookup name = some p → f.tree.node p ≠ some .dir)
      (hr : r = -2#32 ∧ f.lookup name = none ∨ r = -3#32) :
      Step f (.write name data size) (r, []) f
  | writeLeft {name : CString} {data : ℕ → Byte} {size : Word} (h : f.lookup name = none) :
      Step f (.write name data size) (-3#32, [])
        (f.insert name.chars (.file []) (node_eq_none_of_lookup h))
  | read {name : CString} {n : Word} {p : List (List Byte)} {d : List Byte}
      (h : f.lookup name = some p) (hfile : f.tree.node p = some (.file d)) :
      Step f (.read name n) (BitVec.ofNat 32 (d.take n.toNat).length, d.take n.toNat) f
  | readMissing {name : CString} {n : Word} (h : f.lookup name = none) :
      Step f (.read name n) (-1#32, []) f
  | readDirectory {name : CString} {n : Word} {p : List (List Byte)} (h : f.lookup name = some p)
      (hdir : f.tree.node p = some .dir) : Step f (.read name n) (-2#32, []) f
  | cdNowhere : Step f (.cd none) (0#32, []) f
  | cdUp {target : CString} (h : target.chars = dotDot.chars) :
      Step f (.cd (some target)) (0#32, []) (f.setCwd f.cwd.tail f.up_dir)
  | cdRoot {target : CString} (h : target.chars = slash.chars) :
      Step f (.cd (some target)) (0#32, []) (f.setCwd [] f.tree.root)
  | cdInto {target : CString} {p : List (List Byte)} (hup : target.chars ≠ dotDot.chars)
      (hroot : target.chars ≠ slash.chars) (h : f.lookup target = some p)
      (hdir : f.tree.node p = some .dir) :
      Step f (.cd (some target)) (0#32, []) (f.setCwd p hdir)
  | cdRefused {target : CString} (hup : target.chars ≠ dotDot.chars)
      (hroot : target.chars ≠ slash.chars)
      (h : ∀ p, f.lookup target = some p → f.tree.node p ≠ some .dir) :
      Step f (.cd (some target)) (1#32, []) f

end Files

/-! ### The table -/

section Table

variable {σ : Type*} {s s' : Shell σ} {name : CString} {i j : Fin 64} {f : RamFile}

/-- What an entry in use is. -/
def Shell.nodeOf (s : Shell σ) (i : Fin 64) : Node (List Byte) :=
  if (s.file i).isDirectory = 0#32 then
    .file ((List.range (s.file i).size.toNat).map fun k =>
      s.mem ((s.file i).data + BitVec.ofNat 32 k))
  else .dir

/-- The entries of `g_ramfs`. -/
def Shell.table (s : Shell σ) : Table (Fin 64) (List Byte) (List Byte) := fun i =>
  if (s.file i).inUse then some ⟨(s.file i).parentIndex, (s.file i).name.text, s.nodeOf i⟩
  else none

lemma Shell.table_eq_some {a : Item (Fin 64) (List Byte) (List Byte)} :
    s.table i = some a ↔ (s.file i).inUse = true ∧ (s.file i).parentIndex = a.parent ∧
      (s.file i).name.text = a.name ∧ s.nodeOf i = a.node := by
  rw [table]
  cases a with
  | mk parent name node =>
      split_ifs with huse
      · rw [Option.some.injEq, Item.mk.injEq]
        exact (and_iff_right huse).symm
      · exact iff_of_false (by simp) fun h => huse h.1

lemma Shell.table_of_used (h : (s.file i).inUse = true) :
    s.table i = some ⟨(s.file i).parentIndex, (s.file i).name.text, s.nodeOf i⟩ := if_pos h

lemma Shell.table_of_free (h : (s.file i).inUse = false) : s.table i = none := by
  rw [table, h]
  rfl

/-- An entry of the table is found. -/
lemma Shell.table_of_find (h : ramfsFindFile name s.ramfs.currentDir s.ramfs = some i) :
    s.table i = some ⟨s.ramfs.currentDir, name.chars, s.nodeOf i⟩ :=
  have hentry := entry_of_find h
  table_eq_some.mpr ⟨hentry.1, hentry.2.1, hentry.2.2, rfl⟩

lemma Shell.ne_of_not_find (h : ramfsFindFile name s.ramfs.currentDir s.ramfs = none) (i : Fin 64)
    (a : Item (Fin 64) (List Byte) (List Byte)) (ha : s.table i = some a)
    (hparent : a.parent = s.ramfs.currentDir) : a.name ≠ name.chars := by
  obtain ⟨huse, hp, ht, -⟩ := table_eq_some.mp ha
  exact fun heq => not_entry_of_find h i ⟨huse, hp.trans hparent, ht.trans heq⟩

/-- Entries that are the same, over the same bytes. -/
lemma Shell.nodeOf_congr (hfile : s'.file i = s.file i) (hbytes : (s.file i).isDirectory = 0#32 →
      ∀ k < (s.file i).size.toNat, s'.mem ((s.file i).data + BitVec.ofNat 32 k) =
        s.mem ((s.file i).data + BitVec.ofNat 32 k)) : s'.nodeOf i = s.nodeOf i := by
  rw [nodeOf, nodeOf, hfile]
  split_ifs with hreg
  · refine congrArg Node.file (List.map_congr_left fun k hk => ?_)
    exact hbytes hreg k (List.mem_range.mp hk)
  · rfl

lemma Shell.table_congr (hfile : s'.file i = s.file i) (hnode : s'.nodeOf i = s.nodeOf i) :
    s'.table i = s.table i := by
  rw [table, table, hfile, hnode]

/-- One slot changes. -/
lemma Shell.table_update (hfiles : s'.ramfs.files = Function.update s.ramfs.files i f)
    (hbytes : ∀ j, j ≠ i → s.ramfs.Regular j → ∀ k < (s.file j).size.toNat,
      s'.mem ((s.file j).data + BitVec.ofNat 32 k) = s.mem ((s.file j).data + BitVec.ofNat 32 k)) :
    s'.table = Function.update s.table i (s'.table i) := by
  funext j
  by_cases hji : j = i
  · rw [hji, Function.update_self]
  · rw [Function.update_of_ne hji]
    have hfile : s'.file j = s.file j := by rw [file, hfiles, Function.update_of_ne hji]
    cases huse : (s.file j).inUse with
    | false => rw [table_of_free huse, table_of_free (by rw [hfile, huse])]
    | true => exact table_congr hfile (nodeOf_congr hfile fun hreg => hbytes j hji ⟨huse, hreg⟩)

/-- No slot changes. -/
lemma Shell.table_same (hfiles : s'.ramfs.files = s.ramfs.files)
    (hbytes : ∀ j, s.ramfs.Regular j → ∀ k < (s.file j).size.toNat,
      s'.mem ((s.file j).data + BitVec.ofNat 32 k) = s.mem ((s.file j).data + BitVec.ofNat 32 k)) :
    s'.table = s.table := by
  have hfile : ∀ j, s'.file j = s.file j := fun j => congrFun hfiles j
  funext j
  cases huse : (s.file j).inUse with
  | false => rw [table_of_free huse, table_of_free (by rw [hfile, huse])]
  | true =>
      exact table_congr (hfile j) (nodeOf_congr (hfile j) fun hreg => hbytes j ⟨huse, hreg⟩)

/-- The tree and the names are in order, and the root has its name. -/
structure Shell.Ordered (s : Shell σ) : Prop where
  tree : TreeOk s.ramfs
  names : NamesOk s
  root : (s.file 0).name.text = slash.chars

/-- Every entry is found from the root. -/
lemma Shell.Ordered.tableOk (h : s.Ordered) : Table.Ok 0 s.table where
  root_dir := by
    exact ⟨_, table_of_used (mem_used.mp h.tree.root_mem), if_neg h.tree.root_directory⟩
  parent_dir i a ha := by
    obtain ⟨huse, hparent, -, -⟩ := table_eq_some.mp ha
    have hi := mem_used.mpr huse
    rw [← hparent]
    exact ⟨_, table_of_used (mem_used.mp (h.tree.rooted.parent_mem i hi)),
      if_neg (h.tree.parents i hi)⟩
  reached i a ha := by
    obtain ⟨k, hk⟩ := h.tree.rooted.reaches i (mem_used.mpr (table_eq_some.mp ha).1)
    induction k generalizing i a with
    | zero => exact ⟨[], (show i = 0 from hk) ▸ .root⟩
    | succ k ih =>
        by_cases hi : i = 0
        · exact ⟨[], hi ▸ .root⟩
        obtain ⟨huse, hparent, -, -⟩ := table_eq_some.mp ha
        have hup := mem_used.mp (h.tree.rooted.parent_mem i (mem_used.mpr huse))
        obtain ⟨p, hp⟩ := ih _ _ (table_of_used hup) hk
        exact ⟨_, .child hi ha (hparent ▸ hp)⟩
  unique i j a b ha hb hparent hname := by
    obtain ⟨hi, hip, hin, -⟩ := table_eq_some.mp ha
    obtain ⟨hj, hjp, hjn, -⟩ := table_eq_some.mp hb
    exact h.names.unique i j b.parent b.name ⟨hi, hip.trans hparent, hin.trans hname⟩ ⟨hj, hjp, hjn⟩

end Table

/-! ### What the shell holds -/

/-- The shell holds the files. -/
structure Shell.Holds {σ : Type*} (s : Shell σ) (f : Files) : Prop where
  tree : Forest.Represents 0 s.table f.tree
  cwd : At 0 s.table s.ramfs.currentDir f.cwd

namespace Shell.Holds

variable {σ : Type*} {s s' : Shell σ} {f : Files} {name : CString} {i : Fin 64}
  {x : Node (List Byte)} {d : List Byte}

/-- A lookup that fails. -/
lemma lookup_of_not_find (h : s.Holds f) (hs : s.Ordered)
    (hfind : ramfsFindFile name s.ramfs.currentDir s.ramfs = none) : f.lookup name = none := by
  have hnode := h.tree.node_eq_none hs.tableOk h.cwd (ne_of_not_find hfind)
  rw [Files.lookup, if_neg, hnode]
  · rfl
  · rintro ⟨hcwd, hname⟩
    have hcur : s.ramfs.currentDir = 0 := At.eq_root (hcwd ▸ h.cwd)
    refine not_entry_of_find hfind 0 ⟨mem_used.mp hs.tree.root_mem, ?_, hs.root.trans hname.symm⟩
    exact hs.tree.root_parent.trans hcur.symm

/-- A lookup that succeeds, with the path of the slot. -/
lemma lookup_of_find (h : s.Holds f) (hs : s.Ordered)
    (hfind : ramfsFindFile name s.ramfs.currentDir s.ramfs = some i) :
    i = 0 ∧ f.lookup name = some [] ∨ i ≠ 0 ∧ f.lookup name = some (name.chars :: f.cwd) ∧
      At 0 s.table i (name.chars :: f.cwd) := by
  have hentry := entry_of_find hfind
  by_cases hi : i = 0
  · subst hi
    have hcur : s.ramfs.currentDir = 0 := hentry.2.1.symm.trans hs.tree.root_parent
    have hcwd : f.cwd = [] := (hcur ▸ h.cwd).path_unique .root
    exact .inl ⟨rfl, if_pos ⟨hcwd, hentry.2.2.symm.trans hs.root⟩⟩
  · have hat : At 0 s.table i (name.chars :: f.cwd) := .child hi (table_of_find hfind) h.cwd
    refine .inr ⟨hi, ?_, hat⟩
    rw [Files.lookup, if_neg, h.tree.node_eq hat (table_of_find hfind)]
    · rfl
    · rintro ⟨hcwd, hname⟩
      have hcur : s.ramfs.currentDir = 0 := At.eq_root (hcwd ▸ h.cwd)
      refine hi (hs.names.unique i 0 0 slash.chars ?_ ?_)
      · exact ⟨hentry.1, hentry.2.1.trans hcur, hentry.2.2.trans hname⟩
      · exact ⟨mem_used.mp hs.tree.root_mem, hs.tree.root_parent, hs.root⟩

/-- What is found is what is there. -/
lemma node_of_find (h : s.Holds f) (hs : s.Ordered)
    (hfind : ramfsFindFile name s.ramfs.currentDir s.ramfs = some i) :
    ∃ p, f.lookup name = some p ∧ At 0 s.table i p ∧ f.tree.node p = some (s.nodeOf i) := by
  rcases h.lookup_of_find hs hfind with ⟨rfl, hlookup⟩ | ⟨-, hlookup, hat⟩
  · exact ⟨[], hlookup, .root, h.tree.node_eq .root (table_of_find hfind)⟩
  · exact ⟨_, hlookup, hat, h.tree.node_eq hat (table_of_find hfind)⟩

/-- Nothing changes but what the shell does not show. -/
lemma same (h : s.Holds f) (htable : s'.table = s.table)
    (hcur : s'.ramfs.currentDir = s.ramfs.currentDir) : s'.Holds f := by
  refine ⟨htable ▸ h.tree, ?_⟩
  rw [htable, hcur]
  exact h.cwd

/-- A new entry in a free slot. -/
lemma insert (h : s.Holds f) (hs : s.Ordered) (hfree : (s.file i).inUse = false)
    (htable : s'.table = Function.update s.table i (some ⟨s.ramfs.currentDir, name.chars, x⟩))
    (hcur : s'.ramfs.currentDir = s.ramfs.currentDir)
    (hn : f.tree.node (name.chars :: f.cwd) = none) : s'.Holds (f.insert name.chars x hn) := by
  refine ⟨?_, ?_⟩
  · rw [htable]
    exact h.tree.insert hs.tableOk (table_of_free hfree) h.cwd f.cwd_dir hn
  · rw [htable, hcur]
    exact (Forest.Represents.at_insert_iff hs.tableOk (table_of_free hfree)
      (h.cwd.used hs.tableOk)).mpr (.inl h.cwd)

/-- The removal of an entry that is no parent. -/
lemma erase (h : s.Holds f) (hs : s.Ordered) (hat : At 0 s.table i (name.chars :: f.cwd))
    (hleaf : ∀ j a, s.table j = some a → a.parent ≠ i)
    (htable : s'.table = Function.update s.table i none)
    (hcur : s'.ramfs.currentDir = s.ramfs.currentDir) :
    ∃ hT, s'.Holds (f.erase name.chars hT) := by
  have hT := h.tree.leaf_of_table hs.tableOk hat hleaf
  refine ⟨hT, ?_, ?_⟩
  · rw [htable]
    exact h.tree.erase hs.tableOk hat hleaf hT
  · rw [htable, hcur]
    refine (Forest.Represents.at_erase_iff hleaf hat.cons_inv.1).mpr ⟨h.cwd, ?_⟩
    rintro rfl
    exact List.cons_ne_self _ _ (hat.path_unique h.cwd)

/-- Other data in a file. -/
lemma write (h : s.Holds f) (hs : s.Ordered)
    (hfind : ramfsFindFile name s.ramfs.currentDir s.ramfs = some i)
    (hat : At 0 s.table i (name.chars :: f.cwd))
    (htable : s'.table =
      Function.update s.table i (some ⟨s.ramfs.currentDir, name.chars, .file d⟩))
    (hcur : s'.ramfs.currentDir = s.ramfs.currentDir)
    (hT : ∃ d', f.tree.node (name.chars :: f.cwd) = some (.file d')) :
    s'.Holds (f.write name.chars d hT) := by
  refine ⟨?_, ?_⟩
  · rw [htable]
    exact h.tree.write hs.tableOk hat (table_of_find hfind) hT
  · rw [htable, hcur]
    refine h.cwd.congr fun j a ha => ?_
    by_cases hji : j = i
    · subst hji
      obtain rfl := Option.some.inj (ha.symm.trans (table_of_find hfind))
      exact ⟨_, Function.update_self .., rfl, rfl⟩
    · exact ⟨a, by rw [Function.update_of_ne hji, ha], rfl, rfl⟩

end Shell.Holds

end MiqOSoft
