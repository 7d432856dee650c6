import MiqOSoft.Shell.RamFsKernel

/-!
The RAM file system and the other clients of the heap over one kernel, in any order of their
calls.

* `ShellWorld`: the shell and the pointers that the other clients hold.  The calls of a client
  that stays with its own memory, and those of the shell that fill no buffer to the last byte,
  are `ShellWorld.Tame`.
* `ShellWorld.Sound`: the invariant of both file systems, of the heap under them and of the stores
  that the shell has made.
* `ShellWorld.step_refines`: a step is made of calls of the kernel, keeps the invariant and leaves
  the files that it does not touch.
* `system_refines`: so every interleaving is a run of the kernel, in which the buffers of the files
  stay blocks of their own.
* `system_read_back`: what is written to a file is read back, whatever the other clients do.
-/

namespace MiqOSoft

open Machine Tiling Transition

/-- The shell over the kernel, and the pointers of the other clients of the heap. -/
structure ShellWorld where
  shell : Shell Kernel
  others : List Addr

/-- A call of the RAM file system, or one that another client makes of the kernel. -/
inductive ShellEvent
  | ramfs (c : RamFsCall)
  | other (c : Call)

section

/-- The table has a first slot. -/
local instance neZero_slots : NeZero 64 := ⟨by decide⟩

/-- `g_ramfs` in front of `ramfs_init`. -/
def RamFs.blank : RamFs := ⟨fun _ => RamFile.zero, 0#32, 0, false⟩

end

namespace ShellWorld

/-- The state behind `syscall_initialize` and `ramfs_init`. -/
def boot (L : Rodata) (k : Kernel) : ShellWorld :=
  ⟨ramfsInit ⟨.blank, syscallInitialize L k, (syscallInitialize L k).mem, []⟩, []⟩

/-- The shell over the kernel that a call of another client leaves. -/
def serve (w : ShellWorld) (u : FsWorld) : ShellWorld :=
  ⟨{ w.shell with heap := u.kernel, mem := u.kernel.mem }, u.owned⟩

/-- One call. -/
def step (L : Rodata) (w : ShellWorld) : ShellEvent → Option ShellWorld
  | .ramfs c => some ⟨(w.shell.call sysCalls c).2, w.others⟩
  | .other c => (FsWorld.step L ⟨w.shell.kernel, w.others⟩ c).map w.serve

/-- The calls that corrupt no memory: those of the shell fill no buffer to the last byte, and those
of a client release and store to what is its own. -/
def Tame (L : Rodata) (w : ShellWorld) : ShellEvent → Prop
  | .ramfs c => c.Bounded ∧ w.shell.Leaves sysCalls c
  | .other c => FsWorld.Tame L ⟨w.shell.kernel, w.others⟩ c ∧ ∀ i, w.shell.ramfs.Regular i →
      ∀ a ∈ span (w.shell.file i).data (w.shell.file i).capacity.toNat,
        ¬c.Delivers w.shell.kernel a

/-- The invariant: what the clients own is made of the buffers of the files and the pointers of the
others, and every store of the shell was in bounds. -/
structure Sound (L : Rodata) (w : ShellWorld) (owned : List Addr) (l : List Seg) : Prop where
  inv : Inv L w.shell.kernel owned l
  buffers : BuffersOk w.shell.ramfs w.others owned l
  caps : CapsOk w.shell.ramfs
  initialized : w.shell.ramfs.initialized = true
  inBounds : ∀ e ∈ w.shell.trace, e.InBounds

end ShellWorld

/-- The event writes or deletes the file in the slot. -/
def ShellEvent.Touches (s : Shell Kernel) : ShellEvent → Fin 64 → Prop
  | .ramfs c => s.CallTouches c
  | .other _ => fun _ => False

/-- The file in slot `j` keeps its entry, and its buffer its bytes. -/
def KeptFile (j : Fin 64) (s s' : Shell Kernel) : Prop :=
  s'.file j = s.file j ∧
    ∀ a ∈ span (s.file j).data (s.file j).capacity.toNat, s'.mem a = s.mem a

namespace KeptFile

variable {j : Fin 64} {s s' u : Shell Kernel}

lemma refl (j : Fin 64) (s : Shell Kernel) : KeptFile j s s := ⟨rfl, fun _ _ => rfl⟩

lemma trans (h : KeptFile j s s') (h' : KeptFile j s' u) : KeptFile j s u := by
  refine ⟨h'.1.trans h.1, fun a ha => ?_⟩
  exact (h'.2 a (by rwa [h.1])).trans (h.2 a ha)

lemma regular (h : KeptFile j s s') (hj : s.ramfs.Regular j) : s'.ramfs.Regular j := by
  change (s'.file j).inUse = true ∧ (s'.file j).isDirectory = 0#32
  rw [h.1]
  exact hj

end KeptFile

/-! ### The clients -/

section Clients

variable {L : Rodata} {fs : RamFs} {others owned : List Addr} {l l' : List Seg} {p : Addr}

/-- Another client obtains a block. -/
lemma BuffersOk.obtain (h : BuffersOk fs others owned l) (hp : p ∉ owned) :
    BuffersOk fs (p :: others) (p :: owned) l where
  owned_iff q := by
    rw [List.mem_cons, List.mem_cons, h.owned_iff]
    exact or_left_comm
  inj := h.inj
  apart i hi hmem := by
    rcases List.mem_cons.mp hmem with heq | hmem
    · exact hp (heq ▸ h.data_mem hi)
    · exact h.apart i hi hmem
  nodup := List.nodup_cons.mpr ⟨fun hmem => hp ((h.owned_iff p).mpr (.inr hmem)), h.nodup⟩
  room := h.room
  null := h.null

/-- Another client releases its block. -/
lemma BuffersOk.release (h : BuffersOk fs others owned l) (hnodup : owned.Nodup)
    (hp : p ∈ others) : BuffersOk fs (others.erase p) (owned.erase p) l where
  owned_iff q := by
    rw [hnodup.mem_erase_iff, h.nodup.mem_erase_iff, h.owned_iff]
    constructor
    · rintro ⟨hq, ⟨i, hi, rfl⟩ | hmem⟩
      · exact .inl ⟨i, hi, rfl⟩
      · exact .inr ⟨hq, hmem⟩
    · rintro (⟨i, hi, rfl⟩ | ⟨hq, hmem⟩)
      · exact ⟨fun heq => h.apart i hi (heq ▸ hp), .inl ⟨i, hi, rfl⟩⟩
      · exact ⟨hq, .inr hmem⟩
  inj := h.inj
  apart i hi hmem := h.apart i hi (List.mem_of_mem_erase hmem)
  nodup := h.nodup.erase p
  room := h.room
  null := h.null

/-- A call of a client is the same call whatever else is owned. -/
lemma FsWorld.step_others {k : Kernel} {c : Call} {u : FsWorld} (owned : List Addr)
    (hs : FsWorld.step L ⟨k, others⟩ c = some u) : ∃ owned',
    FsWorld.step L ⟨k, owned⟩ c = some ⟨u.kernel, owned'⟩ ∧
      (owned' = owned ∧ u.owned = others ∧ (∀ p, c ≠ .sysFree p) ∨
        (∃ p, owned' = p :: owned ∧ u.owned = p :: others ∧ ∀ p, c ≠ .sysFree p) ∨
        ∃ p, c = .sysFree p ∧ owned' = owned.erase p ∧ u.owned = others.erase p) := by
  obtain ⟨⟨r, k'⟩, hexec, rfl⟩ := Option.map_eq_some_iff.mp hs
  have hstep : FsWorld.step L ⟨k, owned⟩ c = some _ := congrArg (Option.map _) hexec
  refine ⟨_, hstep, ?_⟩
  cases c with
  | sysMalloc n =>
      dsimp only
      by_cases hr : r = NULL
      · rw [if_pos hr, if_pos hr]
        exact .inl ⟨rfl, rfl, by simp⟩
      · rw [if_neg hr, if_neg hr]
        exact .inr (.inl ⟨r, rfl, rfl, by simp⟩)
  | sysFree p => exact .inr (.inr ⟨p, rfl, rfl, rfl⟩)
  | sysOpen => exact .inl ⟨rfl, rfl, by simp⟩
  | sysRead => exact .inl ⟨rfl, rfl, by simp⟩
  | sysWrite => exact .inl ⟨rfl, rfl, by simp⟩
  | sysClose => exact .inl ⟨rfl, rfl, by simp⟩
  | store => exact .inl ⟨rfl, rfl, by simp⟩

lemma FsWorld.Tame.of_others {k : Kernel} {c : Call} (hc : FsWorld.Tame L ⟨k, others⟩ c)
    (hsub : ∀ p ∈ others, p ∈ owned) : FsWorld.Tame L ⟨k, owned⟩ c := by
  cases c with
  | sysFree p => exact hsub p hc
  | sysMalloc => exact hc
  | sysOpen => exact hc
  | sysRead => exact hc
  | sysWrite => exact hc
  | sysClose => exact hc
  | store => exact hc

end Clients

/-! ### Steps -/

namespace ShellWorld

variable {L : Rodata} {w w' : ShellWorld} {owned : List Addr} {l : List Seg}

lemma boot_started (L : Rodata) (k : Kernel) : (boot L k).shell.Started :=
  ⟨⟨.blank, syscallInitialize L k, (syscallInitialize L k).mem, []⟩, rfl, rfl, rfl⟩

/-- The state that a kernel is started in is sound. -/
lemma boot_sound {k : Kernel} (hk : k.Cold) : ∃ l, (boot L k).Sound L [] l := by
  obtain ⟨l, hinv⟩ := FsWorld.boot_sound (L := L) hk
  have hfs := (boot_started L k).ramfs_eq
  have hnone : ∀ i, ¬(boot L k).shell.ramfs.Regular i := by
    rintro i ⟨huse, hreg⟩
    rw [hfs] at huse hreg
    by_cases hi : i = 0
    · subst hi
      exact absurd hreg (by decide)
    · simp [RamFs.initial, hi, RamFile.zero] at huse
  refine ⟨l, hinv, ⟨fun p => ?_, fun i _ hi => absurd hi (hnone i), fun i hi => absurd hi (hnone i),
    List.nodup_nil, fun i hi => absurd hi (hnone i), fun i _ => ?_⟩,
    fun i hi => absurd hi (hnone i), by rw [hfs]; rfl, ?_⟩
  · refine iff_of_false List.not_mem_nil ?_
    rintro (⟨i, hi, -⟩ | hp)
    · exact hnone i hi
    · exact List.not_mem_nil hp
  · rw [hfs]
    by_cases hi : i = 0
    · subst hi
      rfl
    · simp [RamFs.initial, hi, RamFile.zero]
  · rw [(boot_started L k).trace_eq]
    exact List.forall_mem_nil _

/-- A call of the RAM file system. -/
lemma step_ramfs (h : w.Sound L owned l) {c : RamFsCall} (hc : w.Tame L (.ramfs c)) :
    ∃ calls owned' l', Sound L ⟨(w.shell.call sysCalls c).2, w.others⟩ owned' l' ∧
      Run (FsWorld.step L) (FsWorld.Tame L) ⟨w.shell.kernel, owned⟩ calls
        ⟨(w.shell.call sysCalls c).2.kernel, owned'⟩ ∧
      ∀ j, w.shell.ramfs.Regular j → ¬w.shell.CallTouches c j →
        KeptFile j w.shell (w.shell.call sysCalls c).2 := by
  have hacts := Shell.call_actions (S := sysCalls) (c := c) h.initialized
    (G := ⟨fun _ => True, fun i => w.shell.CallTouches c i ∨ (w.shell.file i).inUse = false,
      fun size => size.toNat ≤ MAX_FILE_SIZE⟩)
    ⟨fun _ _ => trivial, fun _ => .inl, fun _ => .inr, hc.1⟩
  have hin := Shell.call_inBounds h.initialized h.caps hc.1 hc.2 h.inBounds
  obtain ⟨calls, owned', l', hreach⟩ :=
    hacts.reaches (fun _ => id) hin h.caps h.inv h.buffers
  have hcaps := hacts.invariant (P := fun u : Shell Kernel => CapsOk u.ramfs)
    (fun u u' hu hact => hact.capsOk (fun _ => id) hu) h.caps
  refine ⟨calls, owned', l', ⟨hreach.inv, hreach.buffers, hcaps,
    hacts.initialized.trans h.initialized, hin⟩, hreach.run, fun j hj hnot => ?_⟩
  have hmay : ¬(w.shell.CallTouches c j ∨ (w.shell.file j).inUse = false) := by
    rintro (htouch | hfree)
    · exact hnot htouch
    · exact Bool.false_ne_true (hfree.symm.trans hj.1)
  exact ⟨hreach.file j hj hmay, hreach.kept j hj hmay⟩

/-- A call of another client. -/
lemma step_other (h : w.Sound L owned l) {c : Call} (hc : w.Tame L (.other c)) {u : FsWorld}
    (hs : FsWorld.step L ⟨w.shell.kernel, w.others⟩ c = some u) :
    ∃ owned' l', (w.serve u).Sound L owned' l' ∧
      Run (FsWorld.step L) (FsWorld.Tame L) ⟨w.shell.kernel, owned⟩ [c]
        ⟨(w.serve u).shell.kernel, owned'⟩ ∧
      ∀ j, w.shell.ramfs.Regular j → KeptFile j w.shell (w.serve u).shell := by
  have htame : FsWorld.Tame L ⟨w.shell.kernel, owned⟩ c :=
    hc.1.of_others fun p hp => (h.buffers.owned_iff p).mpr (.inr hp)
  obtain ⟨owned', hs', hcases⟩ := FsWorld.step_others owned hs
  obtain ⟨l', hinv, hblocks, hbytes⟩ :=
    FsWorld.step_keeps_blocks (w := ⟨w.shell.kernel, owned⟩) h.inv htame hs'
  have hbuffers : BuffersOk w.shell.ramfs u.owned owned' l' := by
    rcases hcases with ⟨rfl, heq, hne⟩ | ⟨p, rfl, heq, hne⟩ | ⟨p, rfl, rfl, heq⟩ <;> rw [heq]
    · exact h.buffers.mono fun q hq => (hblocks q hq (hne q)).2
    · have hp : p ∉ owned := (List.nodup_cons.mp hinv.tables.owned_nodup).1
      exact (h.buffers.mono fun q hq => (hblocks q hq (hne q)).2).obtain hp
    · have hnodup := h.inv.tables.owned_nodup
      refine (h.buffers.release hnodup hc.1).mono fun q hq => (hblocks q ?_ ?_).2
      · exact List.mem_of_mem_erase hq
      · rintro heq
        exact (hnodup.mem_erase_iff.mp hq).1 (Call.sysFree.inj heq).symm
  exact ⟨owned', l', ⟨hinv, hbuffers, h.caps, h.initialized, h.inBounds⟩,
    .cons htame hs' (.nil _), fun j hj => ⟨rfl, fun a ha =>
      hbytes a (h.buffers.keptByte hj ha) (hc.2 j hj a ha)⟩⟩

/-- A tame event returns. -/
lemma step_isSome (h : w.Sound L owned l) {e : ShellEvent} (he : w.Tame L e) :
    ∃ w', step L w e = some w' := by
  cases e with
  | ramfs c => exact ⟨_, rfl⟩
  | other c =>
      have htame : FsWorld.Tame L ⟨w.shell.kernel, owned⟩ c :=
        he.1.of_others fun p hp => (h.buffers.owned_iff p).mpr (.inr hp)
      obtain ⟨u, hs, -⟩ := FsWorld.step_sound (w := ⟨w.shell.kernel, owned⟩) ⟨l, h.inv⟩ htame
      obtain ⟨owned', hs', -⟩ := FsWorld.step_others w.others hs
      exact ⟨_, congrArg (Option.map w.serve) hs'⟩

/-- **A step is made of calls of the kernel**, keeps the invariant, and leaves the files that it
does not touch. -/
theorem step_refines (h : w.Sound L owned l) {e : ShellEvent} (he : w.Tame L e)
    (hs : step L w e = some w') : ∃ calls owned' l', w'.Sound L owned' l' ∧
      Run (FsWorld.step L) (FsWorld.Tame L) ⟨w.shell.kernel, owned⟩ calls
        ⟨w'.shell.kernel, owned'⟩ ∧
      ∀ j, w.shell.ramfs.Regular j → ¬e.Touches w.shell j → KeptFile j w.shell w'.shell := by
  cases e with
  | ramfs c =>
      obtain rfl := Option.some.inj hs
      exact step_ramfs h he
  | other c =>
      obtain ⟨u, hu, rfl⟩ := Option.map_eq_some_iff.mp hs
      obtain ⟨owned', l', hsound, hrun, hkept⟩ := step_other h he hu
      exact ⟨[c], owned', l', hsound, hrun, fun j hj _ => hkept j hj⟩

/-- An interleaving is made of calls of the kernel. -/
lemma run_refines {es : List ShellEvent} (h : w.Sound L owned l)
    (hrun : Run (step L) (Tame L) w es w') : ∃ calls owned' l', w'.Sound L owned' l' ∧
      Run (FsWorld.step L) (FsWorld.Tame L) ⟨w.shell.kernel, owned⟩ calls
        ⟨w'.shell.kernel, owned'⟩ := by
  induction hrun generalizing owned l with
  | nil w => exact ⟨[], owned, l, h, .nil _⟩
  | cons he hs _ ih =>
      obtain ⟨calls, owned₁, l₁, hsound, hcalls, -⟩ := step_refines h he hs
      obtain ⟨calls', owned₂, l₂, hsound', hcalls'⟩ := ih hsound
      exact ⟨calls ++ calls', owned₂, l₂, hsound', hcalls.append hcalls'⟩

end ShellWorld

/-- **The RAM file system refines the kernel's heap.**  Whatever the order of its calls and those
of the other clients, the whole is a run of the kernel: what is owned are the buffers of the
regular files and the pointers of the others; every buffer is a block in use that has room for
its capacity, apart from the others; and no call gets stuck. -/
theorem system_refines {L : Rodata} {k : Kernel} {es : List ShellEvent} {w : ShellWorld}
    (hk : k.Cold)
    (hrun : Run (ShellWorld.step L) (ShellWorld.Tame L) (ShellWorld.boot L k) es w) :
    ∃ calls owned, FsRun L k calls ⟨w.shell.kernel, owned⟩ ∧
      (∀ p, p ∈ owned ↔
        (∃ i, w.shell.ramfs.Regular i ∧ (w.shell.file i).data = p) ∨ p ∈ w.others) ∧
      (∀ i, w.shell.ramfs.Regular i → (w.shell.file i).data ∉ w.others ∧
        ∃ n, w.shell.kernel.heap.HasBlock (w.shell.file i).data n ∧
          (w.shell.file i).capacity.toNat ≤ n) ∧
      (∀ i j, w.shell.ramfs.Regular i → w.shell.ramfs.Regular j → i ≠ j →
        Disjoint (span (w.shell.file i).data (w.shell.file i).capacity.toNat)
          (span (w.shell.file j).data (w.shell.file j).capacity.toNat)) ∧
      ∀ e, w.Tame L e → ∃ w', ShellWorld.step L w e = some w' := by
  obtain ⟨l, hboot⟩ := ShellWorld.boot_sound (L := L) hk
  obtain ⟨calls, owned, l', h, hcalls⟩ := ShellWorld.run_refines hboot hrun
  have hstart : (ShellWorld.boot L k).shell.kernel = syscallInitialize L k := by
    simp [ShellWorld.boot, ramfsInit, RamFs.blank, Shell.kernel, Kernel.withMem, Kernel.mem]
  rw [hstart] at hcalls
  refine ⟨calls, owned, hcalls, h.buffers.owned_iff, fun i hi => ⟨h.buffers.apart i hi, ?_⟩,
    fun i j hi hj hij => h.buffers.disjoint h.inv hi hj hij,
    fun e he => ShellWorld.step_isSome h he⟩
  obtain ⟨n, hn, hle⟩ := h.buffers.room i hi
  exact ⟨n, (usedBlock_iff h.inv.models).mp hn, hle⟩

/-- The kernel under the shell when it is started. -/
def startWorld : ShellWorld := ShellWorld.boot sampleRodata blankKernel

/-- Three bytes are written to a file. -/
def writeThree : RamFsCall := .write dotDot (fun k => BitVec.ofNat 8 k) 3#32

lemma tame_writeThree (w : ShellWorld) : w.Tame sampleRodata (.ramfs writeThree) := by
  refine ⟨fun size h => ?_, Shell.not_fills (by decide) _ _⟩
  obtain rfl := Option.some.inj h
  decide

lemma tame_sysMalloc (w : ShellWorld) (n : Word) :
    w.Tame sampleRodata (.other (.sysMalloc n)) :=
  ⟨trivial, fun _ _ _ _ => id⟩

/-- The world behind the write of three bytes, in which a client requests a block. -/
lemma step_writeThree : ∃ w', ShellWorld.step sampleRodata
    ⟨(startWorld.shell.call sysCalls writeThree).2, []⟩ (.other (.sysMalloc 64#32)) = some w' := by
  obtain ⟨l, hboot⟩ := ShellWorld.boot_sound (L := sampleRodata) blankKernel_cold
  obtain ⟨-, owned', l', hw, -⟩ :=
    ShellWorld.step_refines (w := startWorld) hboot (tame_writeThree _) rfl
  exact ShellWorld.step_isSome hw (tame_sysMalloc _ _)

/-- A file is written, and a client requests a block. -/
theorem system_refines_two : ∃ w calls owned,
    Run (ShellWorld.step sampleRodata) (ShellWorld.Tame sampleRodata) startWorld
        [.ramfs writeThree, .other (.sysMalloc 64#32)] w ∧
      FsRun sampleRodata blankKernel calls ⟨w.shell.kernel, owned⟩ := by
  obtain ⟨w, hs⟩ := step_writeThree
  have hrun : Run (ShellWorld.step sampleRodata) (ShellWorld.Tame sampleRodata) startWorld
      [.ramfs writeThree, .other (.sysMalloc 64#32)] w :=
    .cons (tame_writeThree _) rfl (.cons (tame_sysMalloc _ _) hs (.nil w))
  obtain ⟨calls, owned, hcalls, -⟩ := system_refines blankKernel_cold hrun
  exact ⟨w, calls, owned, hrun, hcalls⟩

/-! ### Reading back -/

/-- The names of the calls of the shell have at most 31 characters. -/
def ShellEvent.Uncut : ShellEvent → Prop
  | .ramfs c => c.Uncut
  | .other _ => True

/-- The event does not write or delete the entry `name` of the directory `dir`. -/
def ShellEvent.Spares (s : Shell Kernel) (dir : Fin 64) (name : CString) : ShellEvent → Prop
  | .ramfs c => s.Spares dir name c
  | .other _ => True

section ReadBack

variable {L : Rodata} {w w' : ShellWorld} {name : CString} {dir i : Fin 64} {e : ShellEvent}

/-- An event that spares an entry does not touch its slot. -/
lemma ShellEvent.Spares.not_touches (hspares : e.Spares w.shell dir name)
    (hentry : Entry w.shell.ramfs i dir name.chars) : ¬e.Touches w.shell i := by
  have hother : ∀ n, ramfsFindFile n w.shell.ramfs.currentDir w.shell.ramfs = some i →
      w.shell.ramfs.currentDir = dir ∧ n.chars = name.chars := by
    intro n hn
    obtain ⟨-, hp, ht⟩ := entry_of_find hn
    exact ⟨hp.symm.trans hentry.2.1, ht.symm.trans hentry.2.2⟩
  cases e with
  | other c => exact id
  | ramfs c =>
      intro htouch
      cases c with
      | write n data size => exact hspares (hother n htouch)
      | delete n => exact hspares (hother n htouch)
      | create n isDirectory => exact htouch
      | read n bufferSize => exact htouch
      | cd target => exact htouch

/-- Names stay in order over an event. -/
lemma NamesOk.event (h : NamesOk w.shell) (hinit : w.shell.ramfs.initialized = true)
    (he : e.Uncut) (hs : ShellWorld.step L w e = some w') : NamesOk w'.shell := by
  cases e with
  | ramfs c =>
      obtain rfl := Option.some.inj hs
      exact h.call hinit fun name hn => RamFsCall.Uncut.creates he hn
  | other c =>
      obtain ⟨u, -, rfl⟩ := Option.map_eq_some_iff.mp hs
      exact h.congr rfl (fun _ => rfl) fun _ _ => ⟨rfl, rfl⟩

/-- The invariant along a run whose names are not cut. -/
lemma ShellWorld.run_names {es : List ShellEvent}
    (hrun : Run (step L) (fun w e => w.Tame L e ∧ e.Uncut) w es w')
    (hw : (∃ owned l, w.Sound L owned l) ∧ NamesOk w.shell) :
    (∃ owned l, w'.Sound L owned l) ∧ NamesOk w'.shell := by
  refine hrun.invariant (P := fun w => (∃ owned l, w.Sound L owned l) ∧ NamesOk w.shell) ?_ hw
  rintro u e u' ⟨⟨owned, l, hu⟩, hnames⟩ ⟨he, huncut⟩ hs
  obtain ⟨-, owned', l', hu', -⟩ := step_refines hu he hs
  exact ⟨⟨owned', l', hu'⟩, hnames.event hu.initialized huncut hs⟩

/-- A file keeps its entry and its bytes over a run that spares it. -/
lemma ShellWorld.run_keptFile {es : List ShellEvent}
    (hrun : Run (step L) (fun u e => (u.Tame L e ∧ e.Uncut) ∧ e.Spares u.shell dir name) w es w')
    (hw : ∃ owned l, w.Sound L owned l) (hentry : Entry w.shell.ramfs i dir name.chars)
    (hreg : (w.shell.file i).isDirectory = 0#32) : KeptFile i w.shell w'.shell := by
  refine (hrun.invariant (P := fun u => (∃ owned l, u.Sound L owned l) ∧
    KeptFile i w.shell u.shell) ?_ ⟨hw, .refl i _⟩).2
  rintro u e u' ⟨⟨owned, l, hu⟩, hkept⟩ ⟨⟨he, -⟩, hspares⟩ hs
  obtain ⟨-, owned', l', hu', -, hfiles⟩ := step_refines hu he hs
  have hentry' : Entry u.shell.ramfs i dir name.chars := by
    rw [entry_iff_file, hkept.1]
    exact hentry
  exact ⟨⟨owned', l', hu'⟩, hkept.trans (hfiles i (hkept.regular ⟨hentry.1, hreg⟩)
    (hspares.not_touches hentry'))⟩

end ReadBack

/-- **What is written is read back from the kernel's heap.**  After a write that returns its size,
any calls of the shell that do not write or delete the file, and any calls of the other clients,
in any order: a read of the name in the directory of the write delivers the data, as far as it
asks for them. -/
theorem system_read_back {L : Rodata} {k : Kernel} {es es' : List ShellEvent} {w w' : ShellWorld}
    {name : CString} {data : ℕ → Byte} {size : Word} (hk : k.Cold)
    (hrun : Run (ShellWorld.step L) (fun w e => w.Tame L e ∧ e.Uncut) (ShellWorld.boot L k) es w)
    (hname : name.chars.length ≤ 31) (hsize : size.toNat ≤ MAX_FILE_SIZE)
    (hfill : ¬w.shell.Fills sysCalls name size)
    (hret : (ramfsWriteFile sysCalls name data size w.shell).1.toInt = size.toNat)
    (hrun' : Run (ShellWorld.step L)
      (fun u e => (u.Tame L e ∧ e.Uncut) ∧ e.Spares u.shell w.shell.ramfs.currentDir name)
      ⟨(ramfsWriteFile sysCalls name data size w.shell).2, w.others⟩ es' w') (n : Word) :
    (readAt w.shell.ramfs.currentDir name n w'.shell).2 =
      (List.range (min size.toNat n.toNat)).map data := by
  obtain ⟨l, hboot⟩ := ShellWorld.boot_sound (L := L) hk
  obtain ⟨⟨owned, l, hw⟩, hnames⟩ :=
    ShellWorld.run_names hrun ⟨⟨[], l, hboot⟩, (ShellWorld.boot_started L k).namesOk⟩
  -- the write is an event itself
  have hwrite : w.Tame L (.ramfs (.write name data size)) := by
    refine ⟨fun size' h => ?_, hfill⟩
    obtain rfl := Option.some.inj h
    exact hsize
  obtain ⟨-, owned', l', hw₁, -⟩ := ShellWorld.step_refines hw hwrite rfl
  have hnames₁ := NamesOk.event (L := L) (e := .ramfs (.write name data size)) hnames
    hw.initialized hname rfl
  obtain ⟨i, t, hfilled, hentry, hreg, hcur⟩ :=
    ramfsWriteFile_success hw.initialized hname hret
  have hfile : ((ramfsWriteFile sysCalls name data size w.shell).2).file i =
      { t.file i with size := size } := by
    rw [hfilled, Shell.file, fillFile_files, Function.update_self]
  have hentry₁ : Entry ((ramfsWriteFile sysCalls name data size w.shell).2).ramfs i
      w.shell.ramfs.currentDir name.chars := by
    rw [entry_iff_file, hfile]
    exact hentry
  have hreg₁ : ((ramfsWriteFile sysCalls name data size w.shell).2.file i).isDirectory = 0#32 := by
    rw [hfile]
    exact hreg
  have hkept := ShellWorld.run_keptFile hrun' ⟨owned', l', hw₁⟩ hentry₁ hreg₁
  obtain ⟨-, hnames'⟩ := ShellWorld.run_names (hrun'.mono fun _ _ h => h.1)
    ⟨⟨owned', l', hw₁⟩, hnames₁⟩
  have hentry' : Entry w'.shell.ramfs i w.shell.ramfs.currentDir name.chars := by
    rw [entry_iff_file, hkept.1]
    exact hentry₁
  obtain ⟨-, hbytes⟩ := ramfsReadFile_regular
    (s := w'.shell.setDir w.shell.ramfs.currentDir) (hnames'.find_eq hentry')
    (by change (w'.shell.file i).isDirectory = 0#32; rw [hkept.1]; exact hreg₁) n
  have hfile' : (w'.shell.setDir w.shell.ramfs.currentDir).file i =
      { t.file i with size := size } := hkept.1.trans hfile
  rw [hfile'] at hbytes
  refine hbytes.trans (List.map_congr_left fun j hj => ?_)
  have hj : j < size.toNat := (lt_min_iff.mp (List.mem_range.mp hj)).1
  -- the byte lies in the buffer, which was kept since the write
  have hin : (t.file i).data + BitVec.ofNat 32 j ∈
      span (((ramfsWriteFile sysCalls name data size w.shell).2).file i).data
        (((ramfsWriteFile sysCalls name data size w.shell).2).file i).capacity.toNat := by
    have hle : (((ramfsWriteFile sysCalls name data size w.shell).2).file i).size.toNat ≤
        (((ramfsWriteFile sysCalls name data size w.shell).2).file i).capacity.toNat :=
      (hw₁.caps.file ⟨hentry₁.1, hreg₁⟩).2.2
    rw [hfile] at hle ⊢
    exact add_ofNat_mem_span (hj.trans_le hle) (BitVec.isLt _).le
  refine (hkept.2 _ hin).trans ?_
  rw [hfilled]
  exact fillFile_bytes data hj

/-- Three bytes are written, a client requests a block, and two of them are read back. -/
theorem system_read_back_two : ∃ w', Run (ShellWorld.step sampleRodata)
      (fun u e => (u.Tame sampleRodata e ∧ e.Uncut) ∧ e.Spares u.shell 0 dotDot)
      ⟨(startWorld.shell.call sysCalls writeThree).2, []⟩ [.other (.sysMalloc 64#32)] w' ∧
    (readAt 0 dotDot 2#32 w'.shell).2 = [0#8, 1#8] := by
  have hret : (ramfsWriteFile sysCalls dotDot (fun k => BitVec.ofNat 8 k) 3#32
      startWorld.shell).1.toInt = (3#32 : Word).toNat := by decide +kernel
  obtain ⟨w', hs⟩ := step_writeThree
  have hrun : Run (ShellWorld.step sampleRodata)
      (fun u e => (u.Tame sampleRodata e ∧ e.Uncut) ∧ e.Spares u.shell 0 dotDot)
      ⟨(startWorld.shell.call sysCalls writeThree).2, []⟩ [.other (.sysMalloc 64#32)] w' :=
    .cons ⟨⟨tame_sysMalloc _ _, trivial⟩, trivial⟩ hs (.nil w')
  exact ⟨w', hrun, system_read_back (n := 2#32) blankKernel_cold (.nil startWorld) (by decide)
    (by decide) (Shell.not_fills (by decide) _ _) hret hrun⟩

end MiqOSoft
