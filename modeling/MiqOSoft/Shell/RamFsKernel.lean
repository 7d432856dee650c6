import MiqOSoft.Kernel.VfsFrame
import MiqOSoft.Shell.RamFsContents

/-!
The RAM file system over the kernel, whose heap it shares with the kernel's own file system and
with other clients.

* `sysCalls`: the system calls of the shell, served by the kernel.
* `BuffersOk`: the buffers of the regular files are blocks that the shell owns, apart from the
  pointers of the other clients.
* `Action.reaches`: an action of the RAM file system is made of calls of the kernel, and keeps the
  bytes of the files that it does not touch.
-/

namespace MiqOSoft

open Machine Tiling Transition

variable {σ : Type*}

/-! ### The system calls -/

/-- `sys_malloc` and `sys_free`, served by the kernel over the memory that the shell works on. -/
def sysCalls : SysCalls Kernel where
  sysMalloc size k m :=
    match (k.withMem m).malloc size with
    | some (p, k') => (p, k', k'.mem)
    | none => (NULL, k, m)
  sysFree ptr k m :=
    match (k.withMem m).free ptr with
    | some (_, k') => (k', k'.mem)
    | none => (k, m)

/-- The kernel under the shell. -/
def Shell.kernel (s : Shell Kernel) : Kernel := s.heap.withMem s.mem

/-- The buffers of the regular files are blocks of their capacity.  Together with the pointers
`others` they are what the clients of the heap own. -/
structure BuffersOk (fs : RamFs) (others owned : List Addr) (l : List Seg) : Prop where
  owned_iff : ∀ p, p ∈ owned ↔ (∃ i, fs.Regular i ∧ (fs.files i).data = p) ∨ p ∈ others
  inj : ∀ i j, fs.Regular i → fs.Regular j → (fs.files i).data = (fs.files j).data → i = j
  apart : ∀ i, fs.Regular i → (fs.files i).data ∉ others
  nodup : others.Nodup
  room : ∀ i, fs.Regular i → ∃ n, UsedBlock l (fs.files i).data n ∧
    (fs.files i).capacity.toNat ≤ n
  null : ∀ i, ¬fs.Regular i → (fs.files i).data = NULL

namespace BuffersOk

variable {fs fs' : RamFs} {others owned : List Addr} {l l' : List Seg} {i : Fin 64} {f : RamFile}

lemma data_mem (h : BuffersOk fs others owned l) (hi : fs.Regular i) :
    (fs.files i).data ∈ owned :=
  (h.owned_iff _).mpr (.inl ⟨i, hi, rfl⟩)

lemma mono (h : BuffersOk fs others owned l)
    (hmono : ∀ p ∈ owned, ∀ n, UsedBlock l p n → UsedBlock l' p n) :
    BuffersOk fs others owned l' where
  owned_iff := h.owned_iff
  inj := h.inj
  apart := h.apart
  nodup := h.nodup
  room i hi := by
    obtain ⟨n, hn, hle⟩ := h.room i hi
    exact ⟨n, hmono _ (h.data_mem hi) n hn, hle⟩
  null := h.null

/-- The fields that matter are the same. -/
lemma congr (h : BuffersOk fs others owned l) (hreg : ∀ i, fs'.Regular i ↔ fs.Regular i)
    (hdata : ∀ i, (fs'.files i).data = (fs.files i).data)
    (hcap : ∀ i, (fs'.files i).capacity = (fs.files i).capacity) :
    BuffersOk fs' others owned l where
  owned_iff p := by simpa only [hreg, hdata] using h.owned_iff p
  inj i j hi hj := by simpa only [hdata] using h.inj i j ((hreg i).mp hi) ((hreg j).mp hj)
  apart i hi := by simpa only [hdata] using h.apart i ((hreg i).mp hi)
  nodup := h.nodup
  room i hi := by simpa only [hdata, hcap] using h.room i ((hreg i).mp hi)
  null i hi := (hdata i).trans (h.null i fun hr => hi ((hreg i).mpr hr))

section Update

variable (hfiles : fs'.files = Function.update fs.files i f)

include hfiles

lemma regular_update_self : fs'.Regular i ↔ f.inUse = true ∧ f.isDirectory = 0#32 := by
  rw [RamFs.Regular, hfiles, Function.update_self]

lemma regular_update_of_ne {j : Fin 64} (hj : j ≠ i) : fs'.Regular j ↔ fs.Regular j := by
  rw [RamFs.Regular, RamFs.Regular, hfiles, Function.update_of_ne hj]

lemma files_update_of_ne {j : Fin 64} (hj : j ≠ i) : fs'.files j = fs.files j := by
  rw [hfiles, Function.update_of_ne hj]

/-- A file gets a buffer of its own. -/
lemma place (h : BuffersOk fs others owned l) (hi : ¬fs.Regular i)
    (hf : f.inUse = true ∧ f.isDirectory = 0#32) (hnew : f.data ∉ owned) {n : ℕ}
    (hn : UsedBlock l f.data n) (hcap : f.capacity.toNat ≤ n) :
    BuffersOk fs' others (f.data :: owned) l := by
  have hself : fs'.files i = f := by rw [hfiles, Function.update_self]
  have hreg : fs'.Regular i := (regular_update_self hfiles).mpr hf
  have hold : ∀ j, fs.Regular j → j ≠ i := by
    rintro j hj rfl
    exact hi hj
  refine ⟨fun p => ?_, fun j k hj hk heq => ?_, fun j hj => ?_, h.nodup, fun j hj => ?_,
    fun j hj => ?_⟩
  · rw [List.mem_cons, h.owned_iff]
    constructor
    · rintro (rfl | ⟨j, hj, rfl⟩ | hp)
      · exact .inl ⟨i, hreg, by rw [hself]⟩
      · exact .inl ⟨j, (regular_update_of_ne hfiles (hold j hj)).mpr hj,
          by rw [files_update_of_ne hfiles (hold j hj)]⟩
      · exact .inr hp
    · rintro (⟨j, hj, rfl⟩ | hp)
      · by_cases hji : j = i
        · exact .inl (by rw [hji, hself])
        · rw [files_update_of_ne hfiles hji]
          exact .inr (.inl ⟨j, (regular_update_of_ne hfiles hji).mp hj, rfl⟩)
      · exact .inr (.inr hp)
  · have hfresh : ∀ j, j ≠ i → fs'.Regular j → (fs'.files j).data ≠ f.data := by
      intro j hji hj heq
      rw [files_update_of_ne hfiles hji] at heq
      exact hnew (heq ▸ h.data_mem ((regular_update_of_ne hfiles hji).mp hj))
    by_cases hji : j = i <;> by_cases hki : k = i
    · rw [hji, hki]
    · rw [hji, hself] at heq
      exact absurd heq.symm (hfresh k hki hk)
    · rw [hki, hself] at heq
      exact absurd heq (hfresh j hji hj)
    · rw [files_update_of_ne hfiles hji, files_update_of_ne hfiles hki] at heq
      exact h.inj j k ((regular_update_of_ne hfiles hji).mp hj)
        ((regular_update_of_ne hfiles hki).mp hk) heq
  · by_cases hji : j = i
    · rw [hji, hself]
      exact fun hp => hnew ((h.owned_iff _).mpr (.inr hp))
    · rw [files_update_of_ne hfiles hji]
      exact h.apart j ((regular_update_of_ne hfiles hji).mp hj)
  · by_cases hji : j = i
    · rw [hji, hself]
      exact ⟨n, hn, hcap⟩
    · rw [files_update_of_ne hfiles hji]
      exact h.room j ((regular_update_of_ne hfiles hji).mp hj)
  · by_cases hji : j = i
    · exact absurd (hji ▸ hreg) hj
    · rw [files_update_of_ne hfiles hji]
      exact h.null j fun hr => hj ((regular_update_of_ne hfiles hji).mpr hr)

/-- A slot without a buffer keeps none. -/
lemma setOther (h : BuffersOk fs others owned l) (hi : ¬fs.Regular i)
    (hf : ¬(f.inUse = true ∧ f.isDirectory = 0#32)) (hdata : f.data = NULL) :
    BuffersOk fs' others owned l := by
  have hreg : ∀ j, fs'.Regular j ↔ fs.Regular j := by
    intro j
    by_cases hji : j = i
    · subst hji
      exact iff_of_false (fun hj => hf ((regular_update_self hfiles).mp hj)) hi
    · exact regular_update_of_ne hfiles hji
  have hfile : ∀ j, fs'.Regular j → fs'.files j = fs.files j := by
    intro j hj
    refine files_update_of_ne hfiles ?_
    rintro rfl
    exact hi ((hreg j).mp hj)
  refine ⟨fun p => ?_, fun j k hj hk => ?_, fun j hj => ?_, h.nodup, fun j hj => ?_,
    fun j hj => ?_⟩
  · rw [h.owned_iff]
    refine or_congr_left (exists_congr fun j => ?_)
    rw [hreg]
    exact and_congr_right fun hj => by rw [hfile j ((hreg j).mpr hj)]
  · rw [hfile j hj, hfile k hk]
    exact h.inj j k ((hreg j).mp hj) ((hreg k).mp hk)
  · rw [hfile j hj]
    exact h.apart j ((hreg j).mp hj)
  · rw [hfile j hj]
    exact h.room j ((hreg j).mp hj)
  · by_cases hji : j = i
    · rw [hji, hfiles, Function.update_self, hdata]
    · rw [files_update_of_ne hfiles hji]
      exact h.null j fun hr => hj ((hreg j).mpr hr)

/-- The buffer of a file is given up. -/
lemma remove (h : BuffersOk fs others owned l) (hnodup : owned.Nodup) (hi : fs.Regular i)
    (hf : ¬(f.inUse = true ∧ f.isDirectory = 0#32)) (hdata : f.data = NULL) :
    BuffersOk fs' others (owned.erase (fs.files i).data) l := by
  have hnot : ¬fs'.Regular i := fun hr => hf ((regular_update_self hfiles).mp hr)
  have hne : ∀ j, fs'.Regular j → j ≠ i := by
    rintro j hj rfl
    exact hnot hj
  have hold : ∀ j, fs'.Regular j → fs.Regular j ∧ fs'.files j = fs.files j := fun j hj =>
    ⟨(regular_update_of_ne hfiles (hne j hj)).mp hj, files_update_of_ne hfiles (hne j hj)⟩
  refine ⟨fun p => ?_, fun j k hj hk => ?_, fun j hj => ?_, h.nodup, fun j hj => ?_,
    fun j hj => ?_⟩
  · rw [hnodup.mem_erase_iff, h.owned_iff]
    constructor
    · rintro ⟨hp, ⟨j, hj, rfl⟩ | hp'⟩
      · have hji : j ≠ i := by
          rintro rfl
          exact hp rfl
        exact .inl ⟨j, (regular_update_of_ne hfiles hji).mpr hj,
          by rw [files_update_of_ne hfiles hji]⟩
      · exact .inr hp'
    · rintro (⟨j, hj, rfl⟩ | hp)
      · obtain ⟨hj', hfile⟩ := hold j hj
        rw [hfile]
        exact ⟨fun heq => hne j hj (h.inj j i hj' hi heq), .inl ⟨j, hj', rfl⟩⟩
      · refine ⟨?_, .inr hp⟩
        rintro rfl
        exact h.apart i hi hp
  · rw [(hold j hj).2, (hold k hk).2]
    exact h.inj j k (hold j hj).1 (hold k hk).1
  · rw [(hold j hj).2]
    exact h.apart j (hold j hj).1
  · rw [(hold j hj).2]
    exact h.room j (hold j hj).1
  · by_cases hji : j = i
    · rw [hji, hfiles, Function.update_self, hdata]
    · rw [files_update_of_ne hfiles hji]
      exact h.null j fun hr => hj ((regular_update_of_ne hfiles hji).mpr hr)

end Update

end BuffersOk

/-! ### Requests and releases -/

section Calls

variable {L : Rodata} {s : Shell Kernel} {owned : List Addr} {l : List Seg}

/-- A request of the shell is a call of the kernel. -/
lemma malloc_reaches (hk : Inv L s.kernel owned l) (n : Word) : ∃ p K l',
    s.malloc sysCalls n =
        (p, { s with heap := K, mem := K.mem, trace := .malloc n p :: s.trace }) ∧
      FsWorld.step L ⟨s.kernel, owned⟩ (.sysMalloc n) =
        some ⟨K, if p = NULL then owned else p :: owned⟩ ∧
      (∀ y, ClientByte l y → K.mem y = s.mem y) ∧
      (p = NULL ∧ Inv L K owned l ∨
        p ≠ NULL ∧ Inv L K (p :: owned) l' ∧ (∃ j, request n ≤ j ∧ UsedBlock l' p j) ∧
          (∀ q m, UsedBlock l q m → UsedBlock l' q m) ∧ ∀ m, ¬UsedBlock l p m) := by
  obtain ⟨p, h, l', hm, hframe, hout⟩ := hk.malloc n
  have hmalloc : s.malloc sysCalls n = (p, { s with
      heap := { s.kernel with heap := h, trace := .malloc n p :: s.kernel.trace }
      mem := h.mem, trace := .malloc n p :: s.trace }) := by
    have hsys : sysCalls.sysMalloc n s.heap s.mem =
        (p, { s.kernel with heap := h, trace := .malloc n p :: s.kernel.trace }, h.mem) := by
      change (match s.kernel.malloc n with
        | some (p, k') => (p, k', k'.mem)
        | none => (NULL, s.heap, s.mem)) = _
      rw [hm]
    rw [Shell.malloc, hsys]
  refine ⟨p, _, l', hmalloc, ?_, hframe, ?_⟩
  · rw [FsWorld.step, Kernel.exec, hm]
    rfl
  · rcases hout with ⟨hp, -, rfl, -, hinv⟩ | ⟨hp, -, -, hnew, hj, hmono, hinv⟩
    · exact .inl ⟨hp, hinv⟩
    · exact .inr ⟨hp, hinv, hj, hmono, hnew⟩

/-- A release of the shell is a call of the kernel. -/
lemma free_reaches (hk : Inv L s.kernel owned l) {p : Addr} (hp : p ∈ owned) : ∃ K l',
    s.free sysCalls p = { s with heap := K, mem := K.mem, trace := .free p :: s.trace } ∧
      FsWorld.step L ⟨s.kernel, owned⟩ (.sysFree p) = some ⟨K, owned.erase p⟩ ∧
      (∀ y, ClientByte l y → K.mem y = s.mem y) ∧ Inv L K (owned.erase p) l' ∧
      ∀ q m, q ≠ p → UsedBlock l q m → UsedBlock l' q m := by
  obtain ⟨h, l', hf, hframe, hiff, hinv⟩ := hk.free hp
  have hfree : s.free sysCalls p = { s with
      heap := { s.kernel with heap := h, trace := .free p :: s.kernel.trace }
      mem := h.mem, trace := .free p :: s.trace } := by
    have hsys : sysCalls.sysFree p s.heap s.mem =
        ({ s.kernel with heap := h, trace := .free p :: s.kernel.trace }, h.mem) := by
      change (match s.kernel.free p with
        | some (_, k') => (k', k'.mem)
        | none => (s.heap, s.mem)) = _
      rw [hf]
    rw [Shell.free, hsys]
  refine ⟨_, l', hfree, ?_, hframe, hinv, fun q m hne hq => (hiff q m).mpr ⟨hne, hq⟩⟩
  rw [FsWorld.step, Kernel.exec, hf]
  rfl

end Calls

/-! ### Actions -/

/-- Calls of the shell lead from one state to another.  The files that may not be touched keep
their entries and their bytes. -/
structure Reaches (L : Rodata) (others : List Addr) (may : Fin 64 → Prop) (s : Shell Kernel)
    (owned : List Addr) (s' : Shell Kernel) (calls : List Call) (owned' : List Addr)
    (l' : List Seg) : Prop where
  run : Run (FsWorld.step L) (FsWorld.Tame L) ⟨s.kernel, owned⟩ calls ⟨s'.kernel, owned'⟩
  inv : Inv L s'.kernel owned' l'
  buffers : BuffersOk s'.ramfs others owned' l'
  file : ∀ j, s.ramfs.Regular j → ¬may j → s'.file j = s.file j
  kept : ∀ j, s.ramfs.Regular j → ¬may j →
    ∀ a ∈ span (s.file j).data (s.file j).capacity.toNat, s'.mem a = s.mem a

section Actions

variable {L : Rodata} {others owned owned' : List Addr} {l l' : List Seg} {s s' : Shell Kernel}
  {may : Fin 64 → Prop} {G : Scope} {i j : Fin 64} {size : Word}

/-- The byte of a file lies in a block of the shell. -/
lemma BuffersOk.keptByte (hb : BuffersOk s.ramfs others owned l) (hj : s.ramfs.Regular j)
    {a : Addr} (ha : a ∈ span (s.file j).data (s.file j).capacity.toNat) :
    KeptByte L owned l a := by
  obtain ⟨n, hn, hle⟩ := hb.room j hj
  exact .inr ⟨_, hb.data_mem hj, n, hn, span_mono hle ha⟩

/-- Two files have no byte in common. -/
lemma BuffersOk.disjoint (hk : Inv L s.kernel owned l) (hb : BuffersOk s.ramfs others owned l)
    (hi : s.ramfs.Regular i) (hj : s.ramfs.Regular j) (hij : i ≠ j) :
    Disjoint (span (s.file i).data (s.file i).capacity.toNat)
      (span (s.file j).data (s.file j).capacity.toNat) := by
  obtain ⟨n, hn, hle⟩ := hb.room i hi
  obtain ⟨m, hm, hle'⟩ := hb.room j hj
  exact (hn.disjoint hk.models hm fun heq => hij (hb.inj i j hi hj heq)).mono (span_mono hle)
    (span_mono hle')

/-- Nothing is called, and the memory stays. -/
lemma Reaches.nothing (hk : Inv L s.kernel owned l) (hkernel : s'.kernel = s.kernel)
    (hbuffers : BuffersOk s'.ramfs others owned l)
    (hfile : ∀ j, s.ramfs.Regular j → ¬may j → s'.file j = s.file j) :
    Reaches L others may s owned s' [] owned l := by
  have hmem : s'.mem = s.mem := congrArg Kernel.mem hkernel
  refine ⟨?_, by rwa [hkernel], hbuffers, hfile, fun _ _ _ _ _ => by rw [hmem]⟩
  rw [hkernel]
  exact .nil _

/-- A request that is refused. -/
lemma reaches_noMemory (hk : Inv L s.kernel owned l) (hb : BuffersOk s.ramfs others owned l)
    (hnull : (s.malloc sysCalls size).1 = NULL) :
    Reaches L others may s owned (s.malloc sysCalls size).2 [.sysMalloc size] owned l := by
  obtain ⟨p, K, l', hm, hstep, hframe, hout⟩ := malloc_reaches hk size
  rw [hm] at hnull ⊢
  obtain rfl : p = NULL := hnull
  obtain ⟨-, hinv⟩ | ⟨hp, -⟩ := hout
  · rw [if_pos rfl] at hstep
    exact ⟨.cons trivial hstep (.nil _), hinv, hb, fun _ _ _ => rfl, fun j hj _ a ha =>
      hframe a (hb.keptByte (L := L) hj ha).clientByte⟩
  · exact absurd rfl hp

/-- Bytes are stored to a buffer. -/
lemma reaches_stores (hk : Inv L s.kernel owned l) (hb : BuffersOk s.ramfs others owned l)
    (hi : s.ramfs.Regular i) (hmay : may i) (hheap : s'.heap = s.heap)
    (hmem : ∀ a ∉ span (s.file i).data (s.file i).capacity.toNat, s'.mem a = s.mem a)
    (hbuffers : BuffersOk s'.ramfs others owned l)
    (hfile : ∀ j, s.ramfs.Regular j → ¬may j → s'.file j = s.file j) :
    ∃ calls, Reaches L others may s owned s' calls owned l := by
  obtain ⟨hinv, calls, -, hrun⟩ := hk.run_stores (m := s'.mem)
    (fun a ha => hb.keptByte hi ha) (s.file i).capacity.isLt.le hmem
  have hkernel : s'.kernel = s.kernel.withMem s'.mem := by
    rw [Shell.kernel, hheap]
    rfl
  rw [← hkernel] at hinv hrun
  refine ⟨calls, hrun, hinv, hbuffers, hfile, fun j hj hnot a ha => hmem a fun hin => ?_⟩
  have hij : i ≠ j := by
    rintro rfl
    exact hnot hmay
  exact Set.disjoint_left.mp (hb.disjoint hk hi hj hij) hin ha

/-- Bytes are stored to the block that a request has returned. -/
lemma run_stores_block {K : Kernel} {p : Addr} {n : ℕ} {m : Memory}
    (hinv : Inv L K (p :: owned) l) (hn : UsedBlock l p n)
    (hm : ∀ a ∉ span p n, m a = K.mem a) :
    Inv L (K.withMem m) (p :: owned) l ∧ ∃ calls,
      Run (FsWorld.step L) (FsWorld.Tame L) ⟨K, p :: owned⟩ calls ⟨K.withMem m, p :: owned⟩ := by
  have hb := hn.bounds hinv.models
  have hkept : ∀ a ∈ span p n, KeptByte L (p :: owned) l a := fun a ha =>
    .inr ⟨p, List.mem_cons_self, n, hn, ha⟩
  obtain ⟨hinv', calls, -, hrun⟩ := hinv.run_stores hkept (by omega) hm
  exact ⟨hinv', calls, hrun⟩

/-- The bytes of a file are apart from a block that a request has returned. -/
lemma BuffersOk.notMem_fresh {K : Kernel} {p : Addr} {n : ℕ}
    (hb : BuffersOk s.ramfs others owned l) (hinv : Inv L K (p :: owned) l')
    (hmono : ∀ q m, UsedBlock l q m → UsedBlock l' q m) (hn : UsedBlock l' p n)
    (hnew : ∀ m, ¬UsedBlock l p m) (hj : s.ramfs.Regular j) {a : Addr}
    (ha : a ∈ span (s.file j).data (s.file j).capacity.toNat) : a ∉ span p n := by
  obtain ⟨m, hm, hle⟩ := hb.room j hj
  have hne : (s.file j).data ≠ p := fun heq => hnew m (heq ▸ hm)
  exact Set.disjoint_left.mp ((hmono _ m hm).disjoint hinv.models hn hne) (span_mono hle ha)

/-- A file is created. -/
lemma reaches_createFile (hk : Inv L s.kernel owned l) (hb : BuffersOk s.ramfs others owned l)
    {slot : Fin 64} (name : CString) (hfree : (s.file slot).inUse = false)
    (hmem : (s.malloc sysCalls 256#32).1 ≠ NULL) :
    ∃ calls owned' l', Reaches L others may s owned
      (((s.malloc sysCalls 256#32).2.storeNul (s.malloc sysCalls 256#32).1 256#32 0#32).link slot
        name (newFile (s.file slot) name (s.malloc sysCalls 256#32).1 256#32 0#32
          s.ramfs.currentDir)) calls owned' l' := by
  obtain ⟨p, K, l', hm, hstep, hframe, hout⟩ := malloc_reaches hk 256#32
  rw [hm] at hmem ⊢
  obtain ⟨hp, -⟩ | ⟨-, hinv, ⟨n, hle, hn⟩, hmono, hnew⟩ := hout
  · exact absurd hp hmem
  rw [if_neg hmem] at hstep
  have h256 : request 256#32 = 256 := by decide
  have hpos : p + 0#32 ∈ span p n := by
    rw [mem_span]
    simp
    omega
  obtain ⟨hinv', calls, hrun⟩ := run_stores_block (m := Function.update K.mem (p + 0#32) 0#8)
    hinv hn fun a ha => Function.update_of_ne (by rintro rfl; exact ha hpos) _ _
  have hslot : ¬s.ramfs.Regular slot := fun hreg => Bool.false_ne_true (hfree.symm.trans hreg.1)
  have hother : ∀ j, s.ramfs.Regular j → j ≠ slot := by
    rintro j hj rfl
    exact hslot hj
  have hnotMem : p ∉ owned := by
    intro hmem
    obtain ⟨m, hused⟩ := hk.tables.owned_used p hmem
    exact hnew m hused
  refine ⟨.sysMalloc 256#32 :: calls, p :: owned, l', .cons trivial hstep hrun, hinv', ?_,
    fun j hj _ => Function.update_of_ne (hother j hj) _ _, fun j hj _ a ha => ?_⟩
  · refine BuffersOk.place (i := slot)
      (f := newFile (s.file slot) name p 256#32 0#32 s.ramfs.currentDir) rfl
      (hb.mono fun q _ => hmono q) hslot ⟨rfl, rfl⟩ hnotMem hn ?_
    simp only [newFile, BitVec.reduceToNat]
    omega
  · have hne : a ≠ p + 0#32 := fun heq =>
      hb.notMem_fresh hinv hmono hn hnew hj ha (heq ▸ hpos)
    exact (Function.update_of_ne hne _ _).trans (hframe a (hb.keptByte (L := L) hj ha).clientByte)

/-- An entry is deleted, and its buffer released. -/
lemma reaches_delete (hk : Inv L s.kernel owned l) (hb : BuffersOk s.ramfs others owned l)
    (hmay : may i) :
    ∃ calls owned' l', Reaches L others may s owned ((s.release sysCalls i).unlink i) calls owned'
      l' := by
  have hfiles : ((s.release sysCalls i).unlink i).ramfs.files =
      Function.update s.ramfs.files i RamFile.zero := by
    rw [Shell.unlink, Shell.release_ramfs]
  have hfile : ∀ j, s.ramfs.Regular j → ¬may j →
      ((s.release sysCalls i).unlink i).file j = s.file j := by
    intro j _ hnot
    have hji : j ≠ i := by
      rintro rfl
      exact hnot hmay
    rw [Shell.file, hfiles, Function.update_of_ne hji]
  have hzero : ¬(RamFile.zero.inUse = true ∧ RamFile.zero.isDirectory = 0#32) := by
    simp [RamFile.zero]
  by_cases hreg : s.ramfs.Regular i
  swap
  · have hkernel : ((s.release sysCalls i).unlink i).kernel = s.kernel := by
      rw [Shell.release, if_pos (hb.null i hreg)]
      rfl
    exact ⟨[], owned, l, .nothing hk hkernel (hb.setOther hfiles hreg hzero rfl) hfile⟩
  obtain ⟨n, hn, -⟩ := hb.room i hreg
  obtain ⟨K, l', hf, hstep, hframe, hinv, hused⟩ := free_reaches hk (hb.data_mem hreg)
  have hrelease : s.release sysCalls i =
      { s with heap := K, mem := K.mem, trace := .free (s.file i).data :: s.trace } := by
    rw [Shell.release, if_neg (hn.ne_null hk.models), hf]
  have hkernel : ((s.release sysCalls i).unlink i).kernel = K := by
    rw [hrelease]
    rfl
  have hremove := hb.remove hfiles hk.tables.owned_nodup hreg hzero rfl
  refine ⟨[.sysFree (s.file i).data], owned.erase (s.file i).data, l', ?_, by rwa [hkernel],
    hremove.mono fun q hq n => hused q n ?_, hfile, fun j hj _ a ha => ?_⟩
  · rw [hkernel]
    exact .cons (hb.data_mem hreg) hstep (.nil _)
  · exact (hk.tables.owned_nodup.mem_erase_iff.mp hq).1
  · have hmem : ((s.release sysCalls i).unlink i).mem = K.mem := by
      rw [hrelease]
      rfl
    rw [hmem]
    exact hframe a (hb.keptByte (L := L) hj ha).clientByte

/-- The buffer of a file grows: its bytes move to a larger block, and the old one is released. -/
lemma reaches_grow (hk : Inv L s.kernel owned l) (hb : BuffersOk s.ramfs others owned l)
    (hmay : may i) (hreg : s.ramfs.Regular i) (hbound : (grownCapacity size).toNat ≤ 0xFFFFFFE0)
    (hsize : (s.file i).size.toNat ≤ (grownCapacity size).toNat)
    (hmem : (s.malloc sysCalls (grownCapacity size)).1 ≠ NULL) :
    ∃ calls owned' l', Reaches L others may s owned (s.grown sysCalls i size) calls owned' l' := by
  obtain ⟨p, K, l₁, hm, hstep, hframe, hout⟩ := malloc_reaches hk (grownCapacity size)
  have hfiles := Shell.grown_files (S := sysCalls) (s := s) (i := i) size
  rw [hm] at hmem hfiles
  obtain ⟨hp, -⟩ | ⟨hp, hinv, ⟨n, hle, hn⟩, hmono, hnew⟩ := hout
  · exact absurd hp hmem
  rw [if_neg hp] at hstep
  obtain ⟨m, hold, -⟩ := hb.room i hreg
  have hne : (s.file i).data ≠ NULL := hold.ne_null hk.models
  have hpne : p ≠ (s.file i).data := fun heq => hnew m (heq ▸ hold)
  have hnotMem : p ∉ owned := fun hmem => (hk.tables.owned_used p hmem).elim hnew
  have hfit : (grownCapacity size).toNat ≤ n := (le_request hbound).trans hle
  have hcopy : ∀ a ∉ span p n,
      copyBytes p (s.file i).data (s.file i).size.toNat K.mem a = K.mem a := fun a ha =>
    copyBytes_of_notMem (s.file i).size.isLt.le fun hin => ha (span_mono (hsize.trans hfit) hin)
  obtain ⟨hinv₁, calls, hrun⟩ := run_stores_block hinv hn hcopy
  -- the state between the copy and the release
  obtain ⟨t, ht⟩ : ∃ t, t = Shell.copyOver p (grownCapacity size) (s.file i).data (s.file i).size
      (s.malloc sysCalls (grownCapacity size)).2 := ⟨_, rfl⟩
  have hkernel : t.kernel = K.withMem
      (copyBytes p (s.file i).data (s.file i).size.toNat K.mem) := by
    rw [ht, hm]
    rfl
  rw [← hkernel] at hinv₁ hrun
  obtain ⟨K', l₂, hf, hstep', hframe', hinv₂, hused⟩ :=
    free_reaches hinv₁ (List.mem_cons_of_mem p (hb.data_mem hreg))
  have hgrown : (s.grown sysCalls i size).kernel = K' := by
    have hstate : s.grown sysCalls i size = (t.free sysCalls (s.file i).data).setFile i
        { s.file i with data := p, capacity := grownCapacity size } := by
      rw [ht, hm]
      simp only [Shell.grown, hm, if_neg hne]
    rw [hstate, hf]
    rfl
  have herase : (p :: owned).erase (s.file i).data = p :: owned.erase (s.file i).data :=
    List.erase_cons_tail (by simpa using hpne)
  rw [herase] at hstep' hinv₂
  refine ⟨.sysMalloc (grownCapacity size) :: (calls ++ [.sysFree (s.file i).data]),
    p :: owned.erase (s.file i).data, l₂, ?_, by rwa [hgrown], ?_, fun j _ hnot => ?_,
    fun j hj hnot a ha => ?_⟩
  · rw [hgrown]
    exact .cons trivial hstep (hrun.snoc (List.mem_cons_of_mem p (hb.data_mem hreg)) hstep')
  · -- the slot gives up its old block, and gets the new one
    have hremove : BuffersOk { s.ramfs with
          files := Function.update s.ramfs.files i RamFile.zero } others
        (owned.erase (s.file i).data) l :=
      hb.remove rfl hk.tables.owned_nodup hreg (by simp [RamFile.zero]) rfl
    refine (hremove.mono fun q hq m h => ?_).place (i := i)
      (f := { s.file i with data := p, capacity := grownCapacity size }) ?_
      (fun hr => ?_) hreg (fun hin => hnotMem (List.mem_of_mem_erase hin)) (hused p n hpne hn) hfit
    · exact hused q m (hk.tables.owned_nodup.mem_erase_iff.mp hq).1 (hmono q m h)
    · rw [hfiles]
      exact (Function.update_idem ..).symm
    · simp [RamFs.Regular, RamFile.zero] at hr
  · have hji : j ≠ i := by
      rintro rfl
      exact hnot hmay
    rw [Shell.file, hfiles, Function.update_of_ne hji]
  · have hkept := hb.keptByte (L := L) hj ha
    have hkept' : KeptByte L owned l₁ a := hkept.mono fun q _ => hmono q
    calc (s.grown sysCalls i size).mem a = K'.mem a :=
          congrArg (fun k : Kernel => k.mem a) hgrown
      _ = t.mem a := hframe' a hkept'.clientByte
      _ = K.mem a := (congrArg (fun k : Kernel => k.mem a) hkernel).trans
          (hcopy a (hb.notMem_fresh hinv hmono hn hnew hj ha))
      _ = s.mem a := hframe a hkept.clientByte

/-- A file is filled by a write that leaves room for the NUL behind the data. -/
lemma reaches_fillFile (hk : Inv L s.kernel owned l) (hb : BuffersOk s.ramfs others owned l)
    (hmay : may i) (hreg : s.ramfs.Regular i) (data : ℕ → Byte)
    (hsize : size.toNat ≤ (s.file i).capacity.toNat)
    (hnul : 0 < size.toNat → size.toNat < (s.file i).capacity.toNat) :
    ∃ calls, Reaches L others may s owned (fillFile i data size s) calls owned l := by
  have hfile : ∀ j, (fillFile i data size s).file j =
      if j = i then { s.file i with size := size } else s.file j := by
    intro j
    rw [Shell.file, fillFile_files, Function.update_apply]
  have hkeep : ∀ j, (fillFile i data size s).ramfs.Regular j ↔ s.ramfs.Regular j := by
    intro j
    change ((fillFile i data size s).file j).inUse = true ∧
      ((fillFile i data size s).file j).isDirectory = 0#32 ↔ _
    rw [hfile]
    split_ifs with hji
    · rw [hji]
      rfl
    · rfl
  refine reaches_stores hk hb hreg hmay (fillFile_heap data) (fun a ha => ?_)
    (hb.congr hkeep (fun j => ?_) fun j => ?_) fun j _ hnot => ?_
  · have hstore : storeBytes (s.file i).data data size.toNat s.mem a = s.mem a :=
      storeBytes_of_notMem (by omega) fun hin => ha (span_mono hsize hin)
    rw [fillFile]
    split_ifs with hpos
    · refine (Function.update_of_ne ?_ _ _).trans hstore
      rintro rfl
      have := hnul (BitVec.lt_def.mp hpos)
      refine ha ?_
      rw [mem_span]
      bv_omega
    · exact hstore
  · change ((fillFile i data size s).file j).data = _
    rw [hfile]
    split_ifs with hji
    · rw [hji]
    · rfl
  · change ((fillFile i data size s).file j).capacity = _
    rw [hfile]
    split_ifs with hji
    · rw [hji]
    · rfl
  · rw [hfile, if_neg]
    rintro rfl
    exact hnot hmay

/-- Calls behind one another. -/
lemma Reaches.trans {u : Shell Kernel} {calls calls' : List Call} {owned'' : List Addr}
    {l'' : List Seg} (h : Reaches L others may s owned s' calls owned' l')
    (h' : Reaches L others may s' owned' u calls' owned'' l'') :
    Reaches L others may s owned u (calls ++ calls') owned'' l'' := by
  have hreg : ∀ j, s.ramfs.Regular j → ¬may j → s'.ramfs.Regular j := by
    intro j hj hnot
    change (s'.file j).inUse = true ∧ (s'.file j).isDirectory = 0#32
    rw [h.file j hj hnot]
    exact hj
  refine ⟨h.run.append h'.run, h'.inv, h'.buffers, fun j hj hnot => ?_,
    fun j hj hnot a ha => ?_⟩
  · exact (h'.file j (hreg j hj hnot) hnot).trans (h.file j hj hnot)
  · refine (h'.kept j (hreg j hj hnot) hnot a ?_).trans (h.kept j hj hnot a ha)
    rwa [h.file j hj hnot]

/-- A size that a command may have is rounded up to less than the kernel refuses to align. -/
lemma grownCapacity_le (h : size.toNat ≤ MAX_FILE_SIZE) :
    (grownCapacity size).toNat ≤ 0xFFFFFFE0 := by
  have hval : (grownCapacity size).toNat = (size.toNat + 255) / 256 * 256 := by
    rw [grownCapacity, BitVec.toNat_mul, BitVec.toNat_udiv, BitVec.toNat_add]
    simp only [BitVec.reduceToNat]
    rw [MAX_FILE_SIZE] at h
    omega
  rw [hval]
  rw [MAX_FILE_SIZE] at h
  omega

/-- **An action is made of calls of the kernel**, if its stores lie inside the buffers. -/
theorem Action.reaches (hG : ∀ size, G.sized size → size.toNat ≤ MAX_FILE_SIZE)
    (h : Action sysCalls G s s') (hin : ∀ e ∈ s'.trace, e.InBounds) (hcaps : CapsOk s.ramfs)
    (hk : Inv L s.kernel owned l) (hb : BuffersOk s.ramfs others owned l) :
    ∃ calls owned' l', Reaches L others G.may s owned s' calls owned' l' := by
  have hne : ∀ {slot : Fin 64} (j : Fin 64), (s.file slot).inUse = false →
      s.ramfs.Regular j → j ≠ slot := by
    rintro slot j hfree hj rfl
    exact Bool.false_ne_true (hfree.symm.trans hj.1)
  cases h with
  | noMemory size hnull => exact ⟨_, _, _, reaches_noMemory hk hb hnull⟩
  | scratch slot f hfree hf hdata =>
      exact ⟨[], owned, l, .nothing hk rfl
        (hb.setOther rfl (fun hr => hne slot hfree hr rfl) (by simp [hf]) hdata)
        fun j hj _ => Function.update_of_ne (hne j hfree hj) _ _⟩
  | createFile name slot hname hfind hfree hmem => exact reaches_createFile hk hb name hfree hmem
  | createDirectory name slot isDirectory hname hfind hfree hdir =>
      exact ⟨[], owned, l, .nothing hk rfl
        (hb.setOther rfl (fun hr => hne slot hfree hr rfl) (fun hr => hdir hr.2) rfl)
        fun j hj _ => Function.update_of_ne (hne j hfree hj) _ _⟩
  | delete i hmay huse hparent hempty => exact reaches_delete hk hb hmay
  | grow i size hmay hsized huse hreg hcap hmem =>
      have hle := hG size hsized
      have := (le_grownCapacity hle).1
      have := (hcaps.file ⟨huse, hreg⟩).2.2
      have := BitVec.lt_def.mp hcap
      exact reaches_grow hk hb hmay ⟨huse, hreg⟩ (grownCapacity_le hle) (by omega) hmem
  | fill i data size hmay hsized huse hreg hsize =>
      obtain ⟨es, hes, hin'⟩ := fillFile_events s i data size
      obtain ⟨hle, hlt⟩ := hin'.mp fun e he => hin e (hes ▸ List.mem_append_left _ he)
      obtain ⟨calls, hreach⟩ := reaches_fillFile hk hb hmay ⟨huse, hreg⟩ data hle hlt
      exact ⟨calls, owned, l, hreach⟩
  | chdir dir hdir =>
      exact ⟨[], owned, l, .nothing hk rfl
        (hb.congr (fun _ => Iff.rfl) (fun _ => rfl) fun _ => rfl) fun _ _ _ => rfl⟩

/-- An action only adds to the trace. -/
lemma Action.trace_suffix {S : SysCalls σ} {s s' : Shell σ} (h : Action S G s s') :
    s.trace <:+ s'.trace := by
  cases h with
  | noMemory size hnull => exact List.suffix_cons ..
  | scratch => exact List.suffix_rfl
  | createFile =>
      exact ((List.suffix_cons ..).trans (List.suffix_cons ..)).trans (List.suffix_cons ..)
  | createDirectory => exact List.suffix_cons ..
  | delete i hmay huse hparent hempty =>
      have hrelease : s.trace <:+ (s.release S i).trace := by
        rw [Shell.release]
        split_ifs
        · exact List.suffix_rfl
        · exact List.suffix_cons ..
      exact hrelease.trans (List.suffix_cons ..)
  | grow i size hmay hsized huse hreg hcap hmem =>
      rw [Shell.grown]
      split_ifs
      · exact List.suffix_cons ..
      · exact ((List.suffix_cons ..).trans (List.suffix_cons ..)).trans (List.suffix_cons ..)
  | fill i data size hmay hsized huse hreg hsize =>
      obtain ⟨es, hes, -⟩ := fillFile_events s i data size
      exact ⟨es, hes.symm⟩
  | chdir => exact List.suffix_rfl

/-- A sequence of actions is made of calls of the kernel. -/
lemma Actions.reaches (hG : ∀ size, G.sized size → size.toNat ≤ MAX_FILE_SIZE)
    (h : Actions sysCalls G s s') (hin : ∀ e ∈ s'.trace, e.InBounds) (hcaps : CapsOk s.ramfs)
    (hk : Inv L s.kernel owned l) (hb : BuffersOk s.ramfs others owned l) :
    ∃ calls owned' l', Reaches L others G.may s owned s' calls owned' l' := by
  induction h with
  | refl => exact ⟨[], owned, l, .nothing hk rfl hb fun _ _ _ => rfl⟩
  | tail hacts hact ih =>
      obtain ⟨calls, owned₁, l₁, hreach⟩ := ih fun e he => hin e (hact.trace_suffix.mem he)
      have hcaps₁ := Actions.invariant (P := fun u : Shell Kernel => CapsOk u.ramfs)
        (fun u u' hu h => h.capsOk hG hu) hacts hcaps
      obtain ⟨calls', owned₂, l₂, hreach'⟩ := hact.reaches hG hin hcaps₁ hreach.inv hreach.buffers
      exact ⟨_, owned₂, l₂, hreach.trans hreach'⟩

end Actions

/-! ### Calls that store in bounds -/

section InBounds

variable {S : SysCalls σ} {G : Scope} {s s' : Shell σ} {name : CString} {size : Word}

/-- No write of the scope is allowed. -/
def Scope.noWrite : Scope := ⟨fun _ => True, fun _ => True, fun _ => False⟩

/-- An action that writes no file stores in bounds. -/
lemma Action.inBounds (h : Action S .noWrite s s') (hin : ∀ e ∈ s.trace, e.InBounds) :
    ∀ e ∈ s'.trace, e.InBounds := by
  cases h with
  | noMemory size hnull => exact List.forall_mem_cons.mpr ⟨trivial, hin⟩
  | scratch => exact hin
  | createFile name slot hname hfind hfree hmem =>
      refine List.forall_mem_cons.mpr ⟨trivial, List.forall_mem_cons.mpr ⟨?_,
        List.forall_mem_cons.mpr ⟨trivial, hin⟩⟩⟩
      simp [RamFsEvent.InBounds]
  | createDirectory => exact List.forall_mem_cons.mpr ⟨trivial, hin⟩
  | delete i hmay huse hparent hempty =>
      have hrelease : ∀ e ∈ (s.release S i).trace, e.InBounds := by
        rw [Shell.release]
        split_ifs
        · exact hin
        · exact List.forall_mem_cons.mpr ⟨trivial, hin⟩
      exact List.forall_mem_cons.mpr ⟨trivial, hrelease⟩
  | grow i size hmay hsized => exact absurd hsized id
  | fill i data size hmay hsized => exact absurd hsized id
  | chdir => exact hin

lemma Actions.inBounds (h : Actions S .noWrite s s') (hin : ∀ e ∈ s.trace, e.InBounds) :
    ∀ e ∈ s'.trace, e.InBounds :=
  h.invariant (P := fun u : Shell σ => ∀ e ∈ u.trace, e.InBounds)
    (fun _ _ hu hact => hact.inBounds hu) hin

/-- A write that does not fill its buffer stores in bounds. -/
lemma ramfsWriteFile_inBounds (hinit : s.ramfs.initialized = true) (hcaps : CapsOk s.ramfs)
    (hsize : size.toNat ≤ MAX_FILE_SIZE) (hno : ¬s.Fills S name size) (data : ℕ → Byte)
    (hin : ∀ e ∈ s.trace, e.InBounds) :
    ∀ e ∈ (ramfsWriteFile S name data size s).2.trace, e.InBounds := by
  obtain ⟨hacts, huse⟩ := findOrCreate_actions (S := S) (G := .noWrite) hinit
    (fun _ => trivial) (fun i (_ : ramfsFindFile name _ _ = some i) => trivial)
    fun _ _ => trivial
  obtain ⟨r, s', hfoc⟩ : ∃ r s', findOrCreate S name s = (r, s') := ⟨_, _, rfl⟩
  rw [hfoc] at hacts huse
  have hin' := hacts.inBounds hin
  have hcaps' : CapsOk s'.ramfs := hacts.invariant (P := fun u : Shell σ => CapsOk u.ramfs)
    (fun u u' hu h => h.capsOk (fun _ => False.elim) hu) hcaps
  cases r with
  | error code =>
      rw [ramfsWriteFile_error hfoc]
      exact hin'
  | ok i =>
      by_cases hreg : (s'.file i).isDirectory = 0#32
      swap
      · rw [ramfsWriteFile_directory hfoc hreg]
        exact hin'
      obtain ⟨es, hes, hiff⟩ :=
        ramfsWriteFile_events hfoc hcaps' ⟨(huse i rfl).2, hreg⟩ hsize data
      rw [hes, List.forall_mem_append]
      refine ⟨hiff.mpr fun hfills => hno ?_, hin'⟩
      rw [Shell.Fills]
      rw [findOrCreate] at hfoc
      cases hfind : ramfsFindFile name s.ramfs.currentDir s.ramfs with
      | some j =>
          rw [hfind] at hfoc
          obtain ⟨h1, rfl⟩ := Prod.mk.inj hfoc
          obtain rfl := Except.ok.inj h1
          exact ⟨hreg, hfills⟩
      | none =>
          simp only [hfind] at hfoc
          have hcreates := creates_of_ok hinit hfind (congrArg Prod.fst hfoc)
          obtain ⟨slot, hslot⟩ := hcreates.2.1
          rw [ramfsCreate_file hinit hfind hslot (hcreates.2.2 rfl)] at hfoc
          obtain ⟨h1, h2⟩ := Prod.mk.inj hfoc
          obtain rfl := Except.ok.inj h1
          have hcapacity : (s'.file slot).capacity = 256#32 := by
            simp [← h2, Shell.file, Shell.link, newFile]
          rw [hcapacity, ← h2] at hfills
          exact ⟨hcreates, hfills⟩

/-- The call is no write that fills its buffer to the last byte. -/
def Shell.Leaves (S : SysCalls σ) (s : Shell σ) : RamFsCall → Prop
  | .write name _ size => ¬s.Fills S name size
  | _ => True

/-- **The stores of a call lie in the buffers**, unless it fills one to the last byte. -/
lemma Shell.call_inBounds (hinit : s.ramfs.initialized = true) (hcaps : CapsOk s.ramfs)
    {c : RamFsCall} (hc : c.Bounded) (hno : s.Leaves S c) (hin : ∀ e ∈ s.trace, e.InBounds) :
    ∀ e ∈ (s.call S c).2.trace, e.InBounds := by
  have hacts : c.writes = none → Actions S .noWrite s (s.call S c).2 := fun hw =>
    Shell.call_actions hinit ⟨fun _ _ => trivial, fun _ _ => trivial, fun _ _ => trivial,
      by simp [hw]⟩
  cases c with
  | write name data size =>
      exact ramfsWriteFile_inBounds hinit hcaps (hc size rfl) hno data hin
  | create name isDirectory => exact (hacts rfl).inBounds hin
  | delete name => exact (hacts rfl).inBounds hin
  | read name bufferSize => exact hin
  | cd target => exact (hacts rfl).inBounds hin

end InBounds

end MiqOSoft
