import MiqOSoft.Kernel.VfsLedger

/-!
What the calls of the file system leave alone: memory that belongs neither to the heap nor to the
literals, such as a stack, and the blocks that the other clients of the heap own.

* `OffKernel`: an address that no call stores to on its own.  The eight bytes in front of a literal
  are excepted, too, since growing a file that lies on it releases its address.
* `KeptByte`: such an address, or one in a block of a client.
* `FsWorld.step_keeps_blocks`: a tame call leaves the clients their blocks, but for one that it
  releases, and changes no such byte but by a read or a store that delivers to it.
* `offKernel_changes`: a run that leaves a byte off the kernel with another value delivered to it.
* `block_isolated`: over a run that does not release it, a block of a client stays where it is, and
  its bytes change by delivery only.
-/

namespace MiqOSoft

open Machine Tiling Transition

/-- The address lies neither in the heap nor in a literal or right in front of one. -/
def OffKernel (L : Rodata) (a : Addr) : Prop :=
  a ∉ span HEAP_START 0x100000 ∧ a ∉ span (L.welcome - 8#32) 61 ∧ a ∉ span (L.info - 8#32) 70

/-- The address lies in a block of a client, or off the kernel. -/
def KeptByte (L : Rodata) (owned : List Addr) (l : List Seg) (a : Addr) : Prop :=
  OffKernel L a ∨ ∃ p ∈ owned, ∃ n, UsedBlock l p n ∧ a ∈ span p n

/-- The bytes that a call stores for its caller. -/
def Call.Delivers (k : Kernel) : Call → Addr → Prop
  | .sysRead fd buffer count, a => ∃ d i, FdOn k fd d i ∧ a ∈ span buffer
      ((toRead (k.virtualFiles i) (k.fileDescriptors d).position count).toNat % 65536)
  | .store b _, a => a = b
  | _, _ => False

section Frame

variable {L : Rodata} {k k' : Kernel} {owned : List Addr} {l : List Seg} {a : Addr} {i : Fin 32}
  {fd count flags : Word} {buffer : Addr} {path : CString} {r : Word}

/-- An address off the kernel belongs to the callers. -/
lemma OffKernel.callerOwned (ha : OffKernel L a) : CallerOwned L k a := by
  have hL := L.welcome_bounds
  have hL' := L.info_bounds
  refine Or.inl ⟨ha.1, fun hmem => ha.2.1 ?_, fun hmem => ha.2.2 ?_⟩
  · rw [mem_span] at hmem ⊢
    bv_omega
  · rw [mem_span] at hmem ⊢
    bv_omega

namespace KeptByte

lemma clientByte (ha : KeptByte L owned l a) : ClientByte l a :=
  ha.imp And.left fun ⟨p, _, n, hp, hmem⟩ => ⟨p, n, hp, hmem⟩

/-- Such an address belongs to the callers. -/
lemma callerOwned (hk : Inv L k owned l) (ha : KeptByte L owned l a) : CallerOwned L k a := by
  rcases ha with hoff | ⟨p, hp, n, hn, hmem⟩
  · exact hoff.callerOwned
  · obtain ⟨bs, hbs, b, hb, hfree, rfl, rfl⟩ := (usedBlock_iff hk.models).mp hn
    exact Or.inr ⟨bs, hbs, b, hb, hfree, hmem, fun i hi => hk.tables.owned_apart _ hp i hi⟩

/-- It is in no file. -/
lemma notMem_file (hk : Inv L k owned l) (ha : KeptByte L owned l a)
    (hi : (k.virtualFiles i).inUse ≠ 0#32) :
    a ∉ span (k.virtualFiles i).data (k.virtualFiles i).capacity.toNat :=
  (ha.callerOwned hk).notMem_file hk hi

/-- Nor in the word that is stored when the old buffer of a file is released. -/
lemma notMem_front (hk : Inv L k owned l) (ha : KeptByte L owned l a)
    (hi : (k.virtualFiles i).inUse ≠ 0#32) :
    a ∉ span ((k.virtualFiles i).data - 8#32) 4 := by
  rcases ha with hoff | ⟨p, hp, n, hn, hmem⟩
  swap
  · exact (hk.tables.backed i hi).notMem_front hk.models hn hmem
  intro hmem
  rcases hk.tables.backed i hi with ⟨-, hdata, -⟩ | ⟨-, hdata, -⟩ | ⟨n, hn, -⟩
  · rw [hdata] at hmem
    exact hoff.2.1 (span_mono (by decide) hmem)
  · rw [hdata] at hmem
    exact hoff.2.2 (span_mono (by decide) hmem)
  · have hb := hn.bounds hk.models
    have hout := hoff.1
    rw [mem_span] at hmem
    rw [mem_span_iff (by decide)] at hout
    simp only [HEAP_START, BitVec.reduceToNat] at hout
    bv_omega

lemma mono {l' : List Seg} (h : ∀ p ∈ owned, ∀ n, UsedBlock l p n → UsedBlock l' p n)
    (ha : KeptByte L owned l a) : KeptByte L owned l' a :=
  ha.imp_right fun ⟨p, hp, n, hn, hmem⟩ => ⟨p, hp, n, h p hp n hn, hmem⟩

end KeptByte

/-! ### Bytes -/

/-- Opening a descriptor stores to no memory. -/
lemma openFd_heap (i : Fin 32) (flags : Word) (k : Kernel) :
    (openFd i flags k).2.heap = k.heap := by
  rw [openFd]
  cases freeFd k with
  | none => rfl
  | some d =>
      dsimp only
      split_ifs <;> rfl

/-- The heap determines the blocks in use. -/
lemma usedBlock_congr {h : Heap} {l' : List Seg} (hl : h.Models l) (hl' : h.Models l') {p : Addr}
    {n : ℕ} : UsedBlock l p n ↔ UsedBlock l' p n :=
  (usedBlock_iff hl).trans (usedBlock_iff hl').symm

/-- The heap after opening a path is the one before, or what a request leaves of it. -/
lemma sysHandlerOpen_heap (hk : Inv L k owned l) (hlen : path.chars.length < 64)
    (hopen : sysHandlerOpen L (some path) flags k = some (r, k')) :
    ∃ l', k'.heap.Models l' ∧ (∀ q m, UsedBlock l q m → UsedBlock l' q m) ∧
      ∀ y, ClientByte l y → k'.mem y = k.mem y := by
  by_cases hnew : ∀ j, findFile path k = none → hasFlag flags OPEN_CREATE = true →
      freeSlot k ≠ some j
  · have hheap : k'.heap = k.heap := by
      rcases sysHandlerOpen_of_not hk hnew with h | ⟨j, -, h⟩
      · exact congrArg Kernel.heap (Prod.mk.inj (Option.some.inj (hopen.symm.trans h))).2
      · rw [← openFd_heap j flags k, Option.some.inj (h.symm.trans hopen)]
    rw [Kernel.mem, hheap]
    exact ⟨l, hk.models, fun _ _ h => h, fun _ _ => rfl⟩
  push Not at hnew
  obtain ⟨j, hfind, hcreate, hslot⟩ := hnew
  have hinit : vfsInit L k = k := by rw [vfsInit, if_pos hk.initialized]
  obtain ⟨t, hcpy, -, -⟩ :=
    FileTable.strcpyName_of_le (show path.chars.length ≤ 80 by omega) (freeSlot_eq_some hslot)
  obtain ⟨p, h, l', hm, hk', hframe, hout⟩ := hk.models.malloc 256#32
  have hcreated := sysHandlerOpen_create (L := L) (k := k) (by rwa [hinit]) hcreate
    (by rwa [hinit]) (by rwa [hinit]) (by rwa [hinit])
  rw [hinit, hopen] at hcreated
  have hheap : k'.heap = h := by
    have heq := Option.some.inj hcreated
    split_ifs at heq with hp
    · exact congrArg (fun r => r.2.heap) heq
    · exact (congrArg (fun r => r.2.heap) heq).trans (openFd_heap j flags (k.created t j p h))
  have hmono : ∀ q m, UsedBlock l q m → UsedBlock l' q m := by
    rcases hout with ⟨-, -, rfl, -⟩ | ⟨-, -, -, n, -, hiff⟩
    · exact fun _ _ h => h
    · exact fun q m hq => (hiff q m).mpr (Or.inr hq)
  rw [Kernel.mem, hheap]
  exact ⟨l', hk', hmono, hframe⟩

lemma sysHandlerRead_mem
    (ha : ∀ d j, FdOn k fd d j → a ∉ span buffer
      ((toRead (k.virtualFiles j) (k.fileDescriptors d).position count).toNat % 65536)) :
    (sysHandlerRead fd buffer count k).2.mem a = k.mem a := by
  by_cases hno : buffer = NULL ∨ ∀ d j, ¬FdOn k fd d j
  · rw [sysHandlerRead_of_not hno]
  push Not at hno
  obtain ⟨hb, d, j, hon⟩ := hno
  rw [sysHandlerRead_of_fdOn hon hb]
  exact copyBytes_of_notMem (by rw [toNat_len16]; omega) fun hin =>
    ha d j hon (by rwa [toNat_len16] at hin)

/-- The growth of a file leaves the clients their blocks and bytes. -/
lemma Grow.keeps {ok : Bool} {needed : Word} {l' : List Seg} (hk : Inv L k owned l)
    (hi : (k.virtualFiles i).inUse ≠ 0#32) (hout : Grow k l i needed ok k' l') :
    (∀ q ∈ owned, ∀ n, UsedBlock l q n → UsedBlock l' q n) ∧
      ∀ a, KeptByte L owned l a → k'.mem a = k.mem a := by
  cases hout with
  | fits hle => exact ⟨fun _ _ _ h => h, fun _ _ => rfl⟩
  | refused hlt hno => exact ⟨fun _ _ _ h => h, fun _ _ => rfl⟩
  | moved hlt hle hroom hfresh hp hn hused hcopy hframe =>
      exact ⟨fun q hq n h => hused q n (hk.tables.owned_apart q hq i hi).symm h,
        fun a ha => hframe a ha.clientByte (ha.notMem_front hk hi)⟩

lemma sysHandlerWrite_keeps (hk : Inv L k owned l)
    (htame : ∀ d i, FdOn k fd d i → hasFlag (k.fileDescriptors d).flags OPEN_WRITE = true →
      (k.fileDescriptors d).position.toNat + count.toNat < 2 ^ 32
        ∨ (k.fileDescriptors d).position.toNat + count.toNat % 65536
          ≤ (k.virtualFiles i).capacity.toNat)
    (hwrite : sysHandlerWrite fd buffer count k = some (r, k')) :
    ∃ l', Inv L k' owned l' ∧ (∀ q ∈ owned, ∀ n, UsedBlock l q n → UsedBlock l' q n) ∧
      ∀ a, KeptByte L owned l a → k'.mem a = k.mem a := by
  by_cases hno : buffer = NULL ∨ count = 0#32 ∨
    ∀ d i, FdOn k fd d i → hasFlag (k.fileDescriptors d).flags OPEN_WRITE = false
  · obtain ⟨r', hr'⟩ := sysHandlerWrite_of_not hno
    obtain ⟨-, rfl⟩ := Prod.mk.inj (Option.some.inj (hwrite.symm.trans hr'))
    exact ⟨l, hk, fun _ _ _ h => h, fun _ _ => rfl⟩
  push Not at hno
  obtain ⟨hb, hc, d, i, hon, hw⟩ := hno
  rw [ne_eq, Bool.not_eq_false] at hw
  obtain ⟨-, hi, -⟩ := hk.fdOn hon
  obtain ⟨ok, k₁, l₁, hcases, hout, hinv⟩ := sysHandlerWrite_cases hk hon hb hc hw
  obtain ⟨hblocks, hbytes⟩ := hout.keeps hk hi
  have heq := Option.some.inj (hcases.symm.trans hwrite)
  cases ok with
  | false =>
      obtain ⟨-, rfl⟩ := Prod.mk.inj heq
      exact ⟨l₁, hinv, hblocks, hbytes⟩
  | true =>
      obtain ⟨-, rfl⟩ := Prod.mk.inj heq
      obtain ⟨hfds, -, huse, -⟩ := hout.kept
      obtain ⟨hend, hfit⟩ := hout.store_fits (htame d i hon hw)
      have hon' : FdOn k₁ fd d i := by
        rw [FdOn, hfds]
        exact hon
      rw [← hfds] at hend hfit
      refine ⟨l₁, overlay_inv hinv hon' hend hfit, hblocks, fun a ha => ?_⟩
      have hnotMem := (ha.mono hblocks).notMem_file hinv (i := i) (by rwa [huse])
      rw [overlay_mem]
      exact (copyBytes_of_notMem (by omega) fun hin =>
        hnotMem (span_add_subset hfit hin)).trans (hbytes a ha)

end Frame

/-- **What a tame call leaves to the clients**: their blocks, but for one that it releases, and
their bytes and those off the kernel, but for those it delivers. -/
theorem FsWorld.step_keeps_blocks {L : Rodata} {w w' : FsWorld} {c : Call} {l : List Seg}
    (hk : Inv L w.kernel w.owned l) (hc : w.Tame L c) (hs : FsWorld.step L w c = some w') :
    ∃ l', Inv L w'.kernel w'.owned l' ∧
      (∀ p ∈ w.owned, c ≠ .sysFree p →
        p ∈ w'.owned ∧ ∀ n, UsedBlock l p n → UsedBlock l' p n) ∧
      ∀ a, KeptByte L w.owned l a → ¬c.Delivers w.kernel a →
        w'.kernel.mem a = w.kernel.mem a := by
  obtain ⟨⟨r, k'⟩, hexec, rfl⟩ := Option.map_eq_some_iff.mp hs
  dsimp only
  cases c with
  | sysOpen path flags =>
      cases path with
      | none =>
          obtain ⟨-, rfl⟩ := Prod.mk.inj (Option.some.inj hexec)
          exact ⟨l, hk, fun p hp _ => ⟨hp, fun _ h => h⟩, fun _ _ _ => rfl⟩
      | some path =>
          obtain ⟨l', hl', hmono, hframe⟩ := sysHandlerOpen_heap hk (hc path rfl) hexec
          obtain ⟨r', k₁, l₁, hopen, hinv⟩ : ∃ r' k₁ l₁,
              sysHandlerOpen L (some path) flags w.kernel = some (r', k₁) ∧
                Inv L k₁ w.owned l₁ := sysHandlerOpen_inv hk (hc path rfl)
          obtain ⟨-, rfl⟩ := Prod.mk.inj (Option.some.inj (hopen.symm.trans hexec))
          exact ⟨l₁, hinv, fun p hp _ => ⟨hp, fun n h =>
            (usedBlock_congr hl' hinv.models).mp (hmono p n h)⟩,
            fun a ha _ => hframe a ha.clientByte⟩
  | sysRead fd buffer count =>
      have hk' : (sysHandlerRead fd buffer count w.kernel).2 = k' :=
        congrArg Prod.snd (Option.some.inj hexec)
      have hinv := sysHandlerRead_inv hk fun d i hon y hy => (hc d i hon y hy).clientByte hk
      rw [← hk']
      exact ⟨l, hinv, fun p hp _ => ⟨hp, fun _ h => h⟩, fun a _ hno =>
        sysHandlerRead_mem fun d j hon hin => hno ⟨d, j, hon, hin⟩⟩
  | sysWrite fd buffer count =>
      obtain ⟨l', hinv, hblocks, hbytes⟩ := sysHandlerWrite_keeps hk hc hexec
      exact ⟨l', hinv, fun p hp _ => ⟨hp, hblocks p hp⟩, fun a ha _ => hbytes a ha⟩
  | sysClose fd =>
      have hk' : (sysHandlerClose fd w.kernel).2 = k' :=
        congrArg Prod.snd (Option.some.inj hexec)
      have hinv : Inv L (sysHandlerClose fd w.kernel).2 w.owned l := sysHandlerClose_inv hk
      rw [hk'] at hinv
      refine ⟨l, hinv, fun p hp _ => ⟨hp, fun _ h => h⟩, fun a _ _ => ?_⟩
      rw [← hk', sysHandlerClose]
      split_ifs <;> rfl
  | sysMalloc n =>
      obtain ⟨p, h, l', hm, hframe, hout⟩ := hk.malloc n
      obtain ⟨rfl, rfl⟩ := Prod.mk.inj (Option.some.inj (hm.symm.trans hexec))
      rcases hout with ⟨hp, -, rfl, -, hinv⟩ | ⟨hp, -, -, -, -, hmono, hinv⟩
      · simp only [if_pos hp]
        exact ⟨l', hinv, fun q hq _ => ⟨hq, fun _ h => h⟩, fun a ha _ => hframe a ha.clientByte⟩
      · simp only [if_neg hp]
        exact ⟨l', hinv, fun q hq _ => ⟨List.mem_cons_of_mem _ hq, hmono q⟩,
          fun a ha _ => hframe a ha.clientByte⟩
  | sysFree p =>
      obtain ⟨h, l', hf, hframe, hiff, hinv⟩ := hk.free hc
      obtain ⟨-, rfl⟩ := Prod.mk.inj (Option.some.inj (hf.symm.trans hexec))
      refine ⟨l', hinv, fun q hq hne => ?_, fun a ha _ => hframe a ha.clientByte⟩
      have hqp : q ≠ p := fun heq => hne (heq ▸ rfl)
      exact ⟨(List.mem_erase_of_ne hqp).mpr hq, fun n h => (hiff q n).mpr ⟨hqp, h⟩⟩
  | store b v =>
      obtain ⟨-, rfl⟩ := Prod.mk.inj (Option.some.inj hexec)
      exact ⟨l, hk.store (CallerOwned.clientByte hk hc) v, fun p hp _ => ⟨hp, fun _ h => h⟩,
        fun a _ hno => Function.update_of_ne hno _ _⟩

/-- **A tame call stores to no memory off the kernel** but what it delivers there. -/
theorem FsWorld.step_mem {L : Rodata} {w w' : FsWorld} {c : Call} {a : Addr} (hw : w.Sound L)
    (hc : w.Tame L c) (hs : FsWorld.step L w c = some w') (ha : OffKernel L a)
    (hno : ¬c.Delivers w.kernel a) : w'.kernel.mem a = w.kernel.mem a := by
  obtain ⟨l, hk⟩ := hw
  obtain ⟨l', -, -, hbytes⟩ := FsWorld.step_keeps_blocks hk hc hs
  exact hbytes a (.inl ha) hno

/-! ### Stores -/

section Stores

variable {L : Rodata} {k : Kernel} {base : Addr} {n : ℕ} {m : Memory}

/-- The kernel over another memory. -/
def Kernel.withMem (k : Kernel) (m : Memory) : Kernel := { k with heap := { k.heap with mem := m } }

/-- A store of a client. -/
def Call.isStore : Call → Bool
  | .store _ _ => true
  | _ => false

/-- Memory of the callers may change to anything by stores of theirs. -/
lemma run_stores (owned : List Addr) (hown : ∀ m, (∀ a ∉ span base n, m a = k.mem a) →
      ∀ a ∈ span base n, CallerOwned L (k.withMem m) a)
    (hn : n ≤ 2 ^ 32) (hm : ∀ a ∉ span base n, m a = k.mem a) :
    ∃ cs, (∀ c ∈ cs, c.isStore = true) ∧
      Run (FsWorld.step L) (FsWorld.Tame L) ⟨k, owned⟩ cs ⟨k.withMem m, owned⟩ := by
  induction n generalizing m with
  | zero =>
      have hsame : k.withMem m = k := by
        have hmem : m = k.mem := funext fun a => hm a (by simp)
        rw [hmem]
        rfl
      exact ⟨[], by simp, hsame ▸ .nil _⟩
  | succ n ih =>
      -- the last byte is stored behind the others
      have hlast : base + BitVec.ofNat 32 n ∈ span base (n + 1) :=
        add_ofNat_mem_span (Nat.lt_succ_self n) hn
      have hshort : ∀ a ∉ span base (n + 1), a ∉ span base n := fun a ha hmem =>
        ha (span_mono (Nat.le_succ n) hmem)
      have hout : ∀ a ∉ span base n, a ≠ base + BitVec.ofNat 32 n → a ∉ span base (n + 1) := by
        intro a ha hne hmem
        rw [mem_span] at ha hmem
        bv_omega
      set b := base + BitVec.ofNat 32 n with hb
      have hstart : ∀ a ∉ span base n, Function.update m b (k.mem b) a = k.mem a := by
        intro a ha
        by_cases hne : a = b
        · rw [hne, Function.update_self]
        · rw [Function.update_of_ne hne]
          exact hm a (hout a ha hne)
      obtain ⟨cs, hcs, hrun⟩ := ih
        (fun m' hm' a ha => hown m' (fun a ha => hm' a (hshort a ha)) a
          (span_mono (Nat.le_succ n) ha)) (by omega) hstart
      have htame : FsWorld.Tame L ⟨k.withMem (Function.update m b (k.mem b)), owned⟩
          (.store b (m b)) := hown _ (fun a ha => hstart a (hshort a ha)) b hlast
      have hstep : FsWorld.step L ⟨k.withMem (Function.update m b (k.mem b)), owned⟩
          (.store b (m b)) = some ⟨k.withMem m, owned⟩ := by
        have hupdate : Function.update (Function.update m b (k.mem b)) b (m b) = m := by
          rw [Function.update_idem, Function.update_eq_self]
        exact congrArg (fun m => some (⟨k.withMem m, owned⟩ : FsWorld)) hupdate
      refine ⟨cs ++ [.store b (m b)], fun c hc => ?_, hrun.snoc htame hstep⟩
      rcases List.mem_append.mp hc with hc | hc
      · exact hcs c hc
      · rw [List.mem_singleton.mp hc]
        rfl

/-- Memory of the clients may change without harm. -/
lemma Inv.withMem {owned : List Addr} {l : List Seg} (hk : Inv L k owned l)
    (hm : ∀ a, m a ≠ k.mem a → ClientByte l a) : Inv L (k.withMem m) owned l := by
  refine ⟨hk.models.setMem fun a ha => ?_, hk.initialized, hk.tables, hk.live⟩
  by_contra hne
  exact (hm a (Ne.symm hne)).notMem_headerBytes hk.models ha

/-- A block of a client may change to anything by stores of its owner. -/
lemma Inv.run_stores {owned : List Addr} {l : List Seg} (hk : Inv L k owned l)
    (hkept : ∀ a ∈ span base n, KeptByte L owned l a) (hn : n ≤ 2 ^ 32)
    (hm : ∀ a ∉ span base n, m a = k.mem a) :
    Inv L (k.withMem m) owned l ∧ ∃ cs, (∀ c ∈ cs, c.isStore = true) ∧
      Run (FsWorld.step L) (FsWorld.Tame L) ⟨k, owned⟩ cs ⟨k.withMem m, owned⟩ := by
  have hinv : ∀ m, (∀ a ∉ span base n, m a = k.mem a) → Inv L (k.withMem m) owned l :=
    fun m hm => hk.withMem fun a hne => (hkept a (by_contra fun ha => hne (hm a ha))).clientByte
  exact ⟨hinv m hm, MiqOSoft.run_stores owned
    (fun m hm a ha => (hkept a ha).callerOwned (hinv m hm)) hn hm⟩

end Stores

/-! ### Runs -/

/-- The initialisation keeps to the heap. -/
lemma syscallInitialize_mem {L : Rodata} {k : Kernel} {a : Addr} (ha : OffKernel L a) :
    (syscallInitialize L k).mem a = k.mem a := by
  have hheap : (syscallInitialize L k).heap = heapInit k.heap := by
    rw [syscallInitialize, vfsInit]
    split_ifs <;> rfl
  rw [Kernel.mem, hheap, heapInit]
  split_ifs
  · rfl
  · have hout : ∀ o : Addr, o.toNat ≤ 8 → a ∉ span (HEAP_START + o) 4 := by
      intro o ho hmem
      refine ha.1 (span_add_subset ?_ hmem)
      omega
    have hsize : a ∉ span HEAP_START 4 := by
      simpa using hout 0#32 (by decide)
    dsimp only [setNext, setIsFree, setSize]
    rw [store32_of_notMem _ (hout 8#32 (by decide)), store32_of_notMem _ (hout 4#32 (by decide)),
      store32_of_notMem _ hsize, Kernel.mem]

/-- **A byte off the kernel changes by delivery only**: if it differs from what it was before the
kernel was initialised, then some call of the run stored to it for its caller. -/
theorem offKernel_changes {L : Rodata} {k : Kernel} {cs : List Call} {w : FsWorld} {a : Addr}
    (hk : k.Cold) (hrun : FsRun L k cs w) (ha : OffKernel L a)
    (hne : w.kernel.mem a ≠ k.mem a) :
    ∃ pre c post u, cs = pre ++ c :: post ∧ FsRun L k pre u ∧ c.Delivers u.kernel a := by
  refine Run.exists_change (fun w : FsWorld => w.kernel.mem a) (fun w c => c.Delivers w.kernel a)
    (fun _ _ _ hw hc hs => FsWorld.sound_of_step hw hc hs)
    (fun _ _ _ hw hc hs hno => FsWorld.step_mem hw hc hs ha hno) (FsWorld.boot_sound hk) hrun ?_
  intro heq
  exact hne (heq.trans (syscallInitialize_mem ha))

/-- A client stores a byte at `0x300000`. -/
theorem offKernel_changes_store : ∃ w, FsRun sampleRodata blankKernel [.store 0x300000#32 7#8] w
    ∧ ∃ pre c post u, [.store 0x300000#32 7#8] = pre ++ c :: post
      ∧ FsRun sampleRodata blankKernel pre u ∧ c.Delivers u.kernel 0x300000#32 := by
  have hspan : (0x300000#32 : Addr) ∈ span 0x300000#32 65536 := by
    rw [mem_span_iff (by decide)]
    simp
  have hoff : OffKernel sampleRodata 0x300000#32 := by
    refine ⟨?_, ?_, ?_⟩ <;> rw [mem_span_iff (by decide)] <;> simp [HEAP_START, sampleRodata]
  have htame : (FsWorld.boot sampleRodata blankKernel).Tame sampleRodata
      (.store 0x300000#32 7#8) := callerOwned_sample hspan
  obtain ⟨w, hw⟩ := FsRun.extend blankKernel_cold (Run.nil _) htame
  have hbyte : w.kernel.mem 0x300000#32 = 7#8 := hw.eval (fun w => w.kernel.mem 0x300000#32) rfl
  refine ⟨w, hw, offKernel_changes blankKernel_cold hw hoff ?_⟩
  rw [hbyte]
  decide

/-- A block of the heap is in use. -/
def Heap.HasBlock (h : Heap) (p : Addr) (n : ℕ) : Prop :=
  ∃ bs, h.blocks = some bs ∧ ∃ b ∈ bs, b.isFree = 0#32 ∧ b.payload = p ∧ b.size.toNat = n

/-- **The block of a client is its own**: over a run that does not release it, whatever the other
clients do and the files grow to, it stays in use with its size, and a byte of it that has changed
was stored by its owner or delivered by a read. -/
theorem block_isolated {L : Rodata} {k : Kernel} {cs ds : List Call} {u w : FsWorld} {p : Addr}
    (hk : k.Cold) (hu : FsRun L k cs u) (hp : p ∈ u.owned)
    (hrun : Run (FsWorld.step L) (FsWorld.Tame L) u ds w) (hfree : .sysFree p ∉ ds) :
    p ∈ w.owned ∧ ∃ n, u.kernel.heap.HasBlock p n ∧ w.kernel.heap.HasBlock p n ∧
      ∀ a ∈ span p n, w.kernel.mem a ≠ u.kernel.mem a →
        ∃ pre c post v, ds = pre ++ c :: post ∧
          Run (FsWorld.step L) (FsWorld.Tame L) u pre v ∧ c.Delivers v.kernel a := by
  obtain ⟨l, hinv⟩ := hu.inv hk
  obtain ⟨n, hn⟩ := hinv.tables.owned_used p hp
  have hrun' := hrun.and_of_forall fun c hc => show c ≠ .sysFree p from fun heq => hfree (heq ▸ hc)
  have hstep : ∀ (v : FsWorld) c v',
      (∃ l, Inv L v.kernel v.owned l ∧ p ∈ v.owned ∧ UsedBlock l p n) →
        v.Tame L c ∧ c ≠ .sysFree p → FsWorld.step L v c = some v' →
        ∃ l, Inv L v'.kernel v'.owned l ∧ p ∈ v'.owned ∧ UsedBlock l p n := by
    rintro v c v' ⟨l, hv, hpv, hnv⟩ ⟨hc, hne⟩ hs
    obtain ⟨l', hv', hblocks, -⟩ := FsWorld.step_keeps_blocks hv hc hs
    obtain ⟨hpv', hkeep⟩ := hblocks p hpv hne
    exact ⟨l', hv', hpv', hkeep n hnv⟩
  obtain ⟨l', hinv', hp', hn'⟩ := Run.invariant hstep hrun' ⟨l, hinv, hp, hn⟩
  refine ⟨hp', n, (usedBlock_iff hinv.models).mp hn, (usedBlock_iff hinv'.models).mp hn', ?_⟩
  intro a ha hne
  obtain ⟨pre, c, post, v, hds, hpre, hdeliver⟩ := Run.exists_change
    (fun v : FsWorld => v.kernel.mem a) (fun v c => c.Delivers v.kernel a) hstep
    (by
      rintro v c v' ⟨l, hv, hpv, hnv⟩ ⟨hc, -⟩ hs hno
      obtain ⟨-, -, -, hbytes⟩ := FsWorld.step_keeps_blocks hv hc hs
      exact hbytes a (.inr ⟨p, hpv, n, hnv, ha⟩) hno)
    ⟨l, hinv, hp, hn⟩ hrun' hne
  exact ⟨pre, c, post, v, hds, hpre.mono fun _ _ h => h.1, hdeliver⟩

/-- A client's block while another client requests one. -/
theorem block_isolated_two : ∃ u w, FsRun sampleRodata blankKernel [.sysMalloc 64#32] u
    ∧ Run (FsWorld.step sampleRodata) (FsWorld.Tame sampleRodata) u [.sysMalloc 32#32] w
    ∧ 0x40000C#32 ∈ w.owned := by
  obtain ⟨u, hu⟩ := FsRun.extend (c := .sysMalloc 64#32) blankKernel_cold
    (Run.nil (FsWorld.boot sampleRodata blankKernel)) trivial
  have howned : u.owned = [0x40000C#32] := hu.eval FsWorld.owned (by decide +kernel)
  obtain ⟨w, hstep, -⟩ := FsWorld.step_sound (hu.inv blankKernel_cold)
    (show u.Tame sampleRodata (.sysMalloc 32#32) from trivial)
  have hrun : Run (FsWorld.step sampleRodata) (FsWorld.Tame sampleRodata) u [.sysMalloc 32#32] w :=
    .cons trivial hstep (.nil w)
  exact ⟨u, w, hu, hrun, (block_isolated blankKernel_cold hu (by rw [howned]; simp) hrun
    (by simp)).1⟩

end MiqOSoft
