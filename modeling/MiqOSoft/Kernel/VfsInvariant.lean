import MiqOSoft.Kernel.HeapBlocks
import MiqOSoft.Kernel.VfsTables

/-!
The invariant of the file system, and what keeps it.

* `Backed`: where the data of a file may lie: on the literal `vfs_init` installed, or in a used
  heap block of at least its capacity.
* `TablesOk`: the file table and the descriptor table are in order, and the pointers owned by
  the heap's other clients are used blocks of no file.  `TablesOk.setFile` is the update of
  one file; growing, creating and truncating are cases of it.
* `Inv`: the heap models an arena, the tables are in order over it, and the used blocks are the
  pointers that a request of the trace returned and that were not released since (`Live`).
* `Inv.malloc`, `Inv.free`, `Inv.freeLiteral`, `Inv.memcpy`: the memory operations of the
  handlers keep the invariant, and leave the bytes of the clients alone.
-/

namespace MiqOSoft

open Machine Tiling

/-- The pointer was returned by a request of the trace, and has not been released since. -/
def Live : List Event → Addr → Prop
  | [], _ => False
  | .malloc _ q :: t, p => q = p ∨ Live t p
  | .free q :: t, p => q ≠ p ∧ Live t p
  | .copy _ _ :: t, p => Live t p

/-- The data of the file in entry `i`: a literal of `vfs_init` that has not grown, or a used
block that holds the capacity. -/
inductive Backed (L : Rodata) (l : List Seg) (i : Fin 32) (f : VFile) : Prop
  | welcome (hi : i = 0) (hdata : f.data = L.welcome) (hcap : f.capacity = welcomeText.strlen)
  | info (hi : i = 1) (hdata : f.data = L.info) (hcap : f.capacity = infoText.strlen)
  | block (n : ℕ) (hdata : UsedBlock l f.data n) (hcap : f.capacity.toNat ≤ n)

/-- The tables are in order, and the pointers `owned` by the other clients of the heap are used
blocks of no file. -/
structure TablesOk (L : Rodata) (t : FileTable) (fds : Fin 32 → FileDescriptor)
    (owned : List Addr) (l : List Seg) : Prop where
  fd : ∀ d, (fds d).inUse ≠ 0#32 → 3 ≤ d ∧ ∃ i, (fds d).file = some i ∧ (t i).inUse ≠ 0#32
    ∧ (fds d).position.toNat ≤ (t i).capacity.toNat
  named : ∀ i, (t i).inUse ≠ 0#32 → (t i).nameString.length < 64
  names : ∀ i j, (t i).inUse ≠ 0#32 → (t j).inUse ≠ 0#32 →
    (t i).nameString = (t j).nameString → i = j
  size_le : ∀ i, (t i).inUse ≠ 0#32 → (t i).size.toNat ≤ (t i).capacity.toNat
  backed : ∀ i, (t i).inUse ≠ 0#32 → Backed L l i (t i)
  data_inj : ∀ i j, (t i).inUse ≠ 0#32 → (t j).inUse ≠ 0#32 → (t i).data = (t j).data → i = j
  owned_used : ∀ p ∈ owned, ∃ n, UsedBlock l p n
  owned_nodup : owned.Nodup
  owned_apart : ∀ p ∈ owned, ∀ i, (t i).inUse ≠ 0#32 → (t i).data ≠ p

/-- The invariant of the file system. -/
structure Inv (L : Rodata) (k : Kernel) (owned : List Addr) (l : List Seg) : Prop where
  models : k.heap.Models l
  initialized : k.fsInitialized = true
  tables : TablesOk L k.virtualFiles k.fileDescriptors owned l
  live : ∀ p, p ≠ NULL → (Live k.trace p ↔ ∃ n, UsedBlock l p n)

/-! ### Where files lie -/

section Backed

variable {L : Rodata} {k : Heap} {l l' : List Seg} {i j : Fin 32} {f g : VFile}

lemma welcomeText_strlen : welcomeText.strlen = 52#32 := by decide

lemma infoText_strlen : infoText.strlen = 61#32 := by decide

lemma Backed.mono (h : ∀ q m, UsedBlock l q m → UsedBlock l' q m) (hf : Backed L l i f) :
    Backed L l' i f := by
  cases hf with
  | welcome hi hdata hcap => exact .welcome hi hdata hcap
  | info hi hdata hcap => exact .info hi hdata hcap
  | block n hdata hcap => exact .block n (h _ _ hdata) hcap

/-- The ends of a file's buffer as numbers: below the heap or in it. -/
lemma Backed.bounds (hk : k.Models l) (hf : Backed L l i f) :
    0x100000 ≤ f.data.toNat ∧ (f.data.toNat + f.capacity.toNat < 0x400000 ∨
      0x40000C ≤ f.data.toNat ∧ f.data.toNat + f.capacity.toNat ≤ 0x500000) := by
  cases hf with
  | welcome hi hdata hcap =>
      have hb := L.welcome_bounds
      rw [hdata, hcap, welcomeText_strlen]
      simp only [BitVec.reduceToNat]
      omega
  | info hi hdata hcap =>
      have hb := L.info_bounds
      rw [hdata, hcap, infoText_strlen]
      simp only [BitVec.reduceToNat]
      omega
  | block n hdata hcap =>
      have hb := hdata.bounds hk
      omega

/-- The bytes of a file are no business of the heap handlers. -/
lemma Backed.clientByte (hf : Backed L l i f) {y : Addr}
    (hy : y ∈ span f.data f.capacity.toNat) : ClientByte l y := by
  cases hf with
  | block n hdata hcap => exact Or.inr ⟨_, n, hdata, span_mono hcap hy⟩
  | welcome hi hdata hcap =>
      have hb := L.welcome_bounds
      rw [hdata, hcap, welcomeText_strlen, mem_span_iff (by simp; omega)] at hy
      simp only [BitVec.reduceToNat] at hy
      refine Or.inl fun h => ?_
      rw [mem_span_iff (by decide)] at h
      simp only [HEAP_START, BitVec.reduceToNat] at h
      omega
  | info hi hdata hcap =>
      have hb := L.info_bounds
      rw [hdata, hcap, infoText_strlen, mem_span_iff (by simp; omega)] at hy
      simp only [BitVec.reduceToNat] at hy
      refine Or.inl fun h => ?_
      rw [mem_span_iff (by decide)] at h
      simp only [HEAP_START, BitVec.reduceToNat] at h
      omega

/-- The buffers of files with different data pointers lie apart. -/
lemma Backed.apart (hk : k.Models l) (hf : Backed L l i f) (hg : Backed L l j g)
    (hne : f.data ≠ g.data) : f.data.toNat + f.capacity.toNat ≤ g.data.toNat
      ∨ g.data.toNat + g.capacity.toNat ≤ f.data.toNat := by
  have hLw := L.welcome_bounds
  have hLi := L.info_bounds
  have hLa := L.apart
  have h52 : welcomeText.strlen.toNat = 52 := by decide
  have h61 : infoText.strlen.toNat = 61 := by decide
  cases hf with
  | block n hdata hcap =>
      have hb := hdata.bounds hk
      cases hg with
      | block m hdata' hcap' =>
          rcases hdata.apart hk hdata' hne with h | h <;> omega
      | welcome hi' hdata' hcap' => rw [hdata', hcap']; omega
      | info hi' hdata' hcap' => rw [hdata', hcap']; omega
  | welcome hi hdata hcap =>
      rw [hdata, hcap]
      cases hg with
      | block m hdata' hcap' =>
          have hb := hdata'.bounds hk
          omega
      | welcome hi' hdata' hcap' => exact absurd (hdata.trans hdata'.symm) hne
      | info hi' hdata' hcap' => rw [hdata', hcap']; omega
  | info hi hdata hcap =>
      rw [hdata, hcap]
      cases hg with
      | block m hdata' hcap' =>
          have hb := hdata'.bounds hk
          omega
      | welcome hi' hdata' hcap' => rw [hdata', hcap']; omega
      | info hi' hdata' hcap' => exact absurd (hdata.trans hdata'.symm) hne

/-- The word that a release writes in front of a file's buffer is not in the payload of a used
block. -/
lemma Backed.notMem_front (hk : k.Models l) (hf : Backed L l i f) {q y : Addr} {m : ℕ}
    (hq : UsedBlock l q m) (hy : y ∈ span q m) : y ∉ span (f.data - 8#32) 4 := by
  have hbf := hf.bounds hk
  have hbq := hq.bounds hk
  have hfront : (f.data - 8#32).toNat = f.data.toNat - 8 := by bv_omega
  rw [mem_span_iff (by omega)] at hy ⊢
  rw [hfront]
  cases hf with
  | welcome hi hdata hcap =>
      have hL := L.welcome_bounds
      rw [hdata]
      omega
  | info hi hdata hcap =>
      have hL := L.info_bounds
      rw [hdata]
      omega
  | block n hdata hcap =>
      by_cases hne : q = f.data
      · subst hne
        omega
      · have := hq.apart hk hdata hne
        omega

lemma Backed.disjoint (hk : k.Models l) (hf : Backed L l i f) (hg : Backed L l j g)
    (hne : f.data ≠ g.data) :
    Disjoint (span f.data f.capacity.toNat) (span g.data g.capacity.toNat) := by
  have hbf := hf.bounds hk
  have hbg := hg.bounds hk
  exact disjoint_span (by omega) (by omega) (hf.apart hk hg hne)

end Backed

/-! ### Updates of the tables -/

namespace TablesOk

variable {L : Rodata} {t : FileTable} {fds : Fin 32 → FileDescriptor} {owned : List Addr}
  {l l' : List Seg} {p : Addr} {n : ℕ} {i : Fin 32} {f : VFile}

/-- New used blocks do no harm. -/
lemma mono (h : ∀ q m, UsedBlock l q m → UsedBlock l' q m) (ht : TablesOk L t fds owned l) :
    TablesOk L t fds owned l' :=
  { ht with
    backed := fun i hi => (ht.backed i hi).mono h
    owned_used := fun p hp => (ht.owned_used p hp).imp fun n hn => h p n hn }

/-- A used block of nobody is taken over by a client. -/
lemma own (ht : TablesOk L t fds owned l) (hp : UsedBlock l p n) (hnew : p ∉ owned)
    (hdata : ∀ i, (t i).inUse ≠ 0#32 → (t i).data ≠ p) : TablesOk L t fds (p :: owned) l :=
  { ht with
    owned_used := fun q hq => by
      rcases List.mem_cons.mp hq with rfl | hq
      · exact ⟨n, hp⟩
      · exact ht.owned_used q hq
    owned_nodup := List.nodup_cons.mpr ⟨hnew, ht.owned_nodup⟩
    owned_apart := fun q hq => by
      rcases List.mem_cons.mp hq with rfl | hq
      · exact hdata
      · exact ht.owned_apart q hq }

/-- A client's block is released. -/
lemma release (ht : TablesOk L t fds owned l) (hp : p ∈ owned)
    (h : ∀ q m, UsedBlock l' q m ↔ q ≠ p ∧ UsedBlock l q m) :
    TablesOk L t fds (owned.erase p) l' := by
  have hkeep : ∀ i, (t i).inUse ≠ 0#32 → Backed L l' i (t i) := by
    intro i hi
    have hne := ht.owned_apart p hp i hi
    cases ht.backed i hi with
    | welcome hi hdata hcap => exact .welcome hi hdata hcap
    | info hi hdata hcap => exact .info hi hdata hcap
    | block n hdata hcap => exact .block n ((h _ _).mpr ⟨hne, hdata⟩) hcap
  exact { ht with
    backed := hkeep
    owned_used := fun q hq => by
      obtain ⟨hne, hq⟩ := (ht.owned_nodup.mem_erase_iff).mp hq
      obtain ⟨m, hm⟩ := ht.owned_used q hq
      exact ⟨m, (h q m).mpr ⟨hne, hm⟩⟩
    owned_nodup := ht.owned_nodup.erase p
    owned_apart := fun q hq => ht.owned_apart q (List.mem_of_mem_erase hq) }

/-- A descriptor is closed, or set on a file in use at a position in its buffer. -/
lemma setFd (ht : TablesOk L t fds owned l) (d : Fin 32) {desc : FileDescriptor}
    (hd : desc.inUse ≠ 0#32 → 3 ≤ d ∧ ∃ i, desc.file = some i ∧ (t i).inUse ≠ 0#32
      ∧ desc.position.toNat ≤ (t i).capacity.toNat) :
    TablesOk L t (Function.update fds d desc) owned l :=
  { ht with
    fd := fun e he => by
      by_cases hed : e = d
      · subst hed
        rw [Function.update_self] at he ⊢
        exact hd he
      · rw [Function.update_of_ne hed] at he ⊢
        exact ht.fd e he }

/-- A free entry of the file table may be overwritten as long as it stays free. -/
lemma setFree (ht : TablesOk L t fds owned l) (hi : (t i).inUse = 0#32) (hf : f.inUse = 0#32) :
    TablesOk L (Function.update t i f) fds owned l := by
  have hne : ∀ j, (Function.update t i f j).inUse ≠ 0#32 → j ≠ i := by
    rintro j hj rfl
    rw [Function.update_self] at hj
    exact hj hf
  have hsame : ∀ j, (Function.update t i f j).inUse ≠ 0#32 → Function.update t i f j = t j :=
    fun j hj => Function.update_of_ne (hne j hj) _ _
  have huse : ∀ j, (Function.update t i f j).inUse ≠ 0#32 → (t j).inUse ≠ 0#32 :=
    fun j hj => hsame j hj ▸ hj
  refine ⟨fun d hd => ?_, fun j hj => ?_, fun j j' hj hj' => ?_, fun j hj => ?_, fun j hj => ?_,
    fun j j' hj hj' => ?_, ht.owned_used, ht.owned_nodup, fun p hp j hj => ?_⟩
  · obtain ⟨h3, j, hfile, hj, hpos⟩ := ht.fd d hd
    have hji : j ≠ i := by
      rintro rfl
      exact hj hi
    refine ⟨h3, j, hfile, ?_⟩
    rw [Function.update_of_ne hji]
    exact ⟨hj, hpos⟩
  · rw [hsame j hj]
    exact ht.named j (huse j hj)
  · rw [hsame j hj, hsame j' hj']
    exact ht.names j j' (huse j hj) (huse j' hj')
  · rw [hsame j hj]
    exact ht.size_le j (huse j hj)
  · rw [hsame j hj]
    exact ht.backed j (huse j hj)
  · rw [hsame j hj, hsame j' hj']
    exact ht.data_inj j j' (huse j hj) (huse j' hj')
  · rw [hsame j hj]
    exact ht.owned_apart p hp j (huse j hj)

/-- **The update of one file**, which may take over a pointer of the clients as its data: the
file keeps or gets a name of its own and a buffer of its own, no smaller than before. -/
theorem setFile {owned' : List Addr} (ht : TablesOk L t fds owned l)
    (hsub : owned'.Sublist owned)
    (hcap : (t i).inUse ≠ 0#32 → (t i).capacity.toNat ≤ f.capacity.toNat)
    (hused : f.inUse ≠ 0#32) (hnamed : f.nameString.length < 64)
    (hnames : ∀ j ≠ i, (t j).inUse ≠ 0#32 → (t j).nameString ≠ f.nameString)
    (hsize : f.size.toNat ≤ f.capacity.toNat) (hbacked : Backed L l i f)
    (hdata : ∀ j ≠ i, (t j).inUse ≠ 0#32 → (t j).data ≠ f.data)
    (howned : ∀ p ∈ owned', f.data ≠ p) :
    TablesOk L (Function.update t i f) fds owned' l := by
  have hcases : ∀ j, (Function.update t i f j).inUse ≠ 0#32 →
      j = i ∧ Function.update t i f j = f
        ∨ j ≠ i ∧ Function.update t i f j = t j ∧ (t j).inUse ≠ 0#32 := by
    intro j hj
    by_cases hji : j = i
    · subst hji
      exact Or.inl ⟨rfl, Function.update_self ..⟩
    · have heq : Function.update t i f j = t j := Function.update_of_ne hji _ _
      exact Or.inr ⟨hji, heq, heq ▸ hj⟩
  refine ⟨fun d hd => ?_, fun j hj => ?_, fun j j' hj hj' hn => ?_, fun j hj => ?_, fun j hj => ?_,
    fun j j' hj hj' hn => ?_, fun p hp => ht.owned_used p (hsub.subset hp),
    ht.owned_nodup.sublist hsub, fun p hp j hj => ?_⟩
  · obtain ⟨h3, j, hfile, hj, hpos⟩ := ht.fd d hd
    refine ⟨h3, j, hfile, ?_⟩
    by_cases hji : j = i
    · subst hji
      rw [Function.update_self]
      exact ⟨hused, hpos.trans (hcap hj)⟩
    · rw [Function.update_of_ne hji]
      exact ⟨hj, hpos⟩
  · rcases hcases j hj with ⟨-, heq⟩ | ⟨-, heq, hj⟩ <;> rw [heq]
    · exact hnamed
    · exact ht.named j hj
  · rcases hcases j hj with ⟨hji, heq⟩ | ⟨hji, heq, hj⟩ <;>
      rcases hcases j' hj' with ⟨hji', heq'⟩ | ⟨hji', heq', hj'⟩ <;> rw [heq, heq'] at hn
    · exact hji.trans hji'.symm
    · exact absurd hn.symm (hnames j' hji' hj')
    · exact absurd hn (hnames j hji hj)
    · exact ht.names j j' hj hj' hn
  · rcases hcases j hj with ⟨-, heq⟩ | ⟨-, heq, hj⟩ <;> rw [heq]
    · exact hsize
    · exact ht.size_le j hj
  · rcases hcases j hj with ⟨hji, heq⟩ | ⟨-, heq, hj⟩ <;> rw [heq]
    · exact hji ▸ hbacked
    · exact ht.backed j hj
  · rcases hcases j hj with ⟨hji, heq⟩ | ⟨hji, heq, hj⟩ <;>
      rcases hcases j' hj' with ⟨hji', heq'⟩ | ⟨hji', heq', hj'⟩ <;> rw [heq, heq'] at hn
    · exact hji.trans hji'.symm
    · exact absurd hn.symm (hdata j' hji' hj')
    · exact absurd hn (hdata j hji hj)
    · exact ht.data_inj j j' hj hj' hn
  · rcases hcases j hj with ⟨-, heq⟩ | ⟨-, heq, hj⟩ <;> rw [heq]
    · exact howned p hp
    · exact ht.owned_apart p (hsub.subset hp) j hj

/-- A file in use changes its size within its capacity. -/
lemma resize (ht : TablesOk L t fds owned l) (hi : (t i).inUse ≠ 0#32) (size : Word)
    (hsize : size.toNat ≤ (t i).capacity.toNat) :
    TablesOk L (Function.update t i { t i with size := size }) fds owned l := by
  refine ht.setFile (List.Sublist.refl _) (fun _ => le_rfl) hi (ht.named i hi) ?_ hsize ?_ ?_ ?_
  · exact fun j hji hj hn => hji (ht.names j i hj hi hn)
  · cases ht.backed i hi with
    | welcome hi hdata hcap => exact .welcome hi hdata hcap
    | info hi hdata hcap => exact .info hi hdata hcap
    | block n hdata hcap => exact .block n hdata hcap
  · exact fun j hji hj hn => hji (ht.data_inj j i hj hi hn)
  · exact fun p hp => ht.owned_apart p hp i hi

/-- A file in use moves to a larger buffer that a client owned. -/
lemma regrow (ht : TablesOk L t fds (p :: owned) l) (hi : (t i).inUse ≠ 0#32)
    (hp : UsedBlock l p n) {c : Word} (hc : c.toNat ≤ n) (hle : (t i).capacity.toNat ≤ c.toNat) :
    TablesOk L (Function.update t i { t i with data := p, capacity := c }) fds owned l := by
  have hapart := ht.owned_apart p List.mem_cons_self
  refine ht.setFile (List.sublist_cons_self _ _) (fun _ => hle) hi (ht.named i hi) ?_
    ((ht.size_le i hi).trans hle) (.block n hp hc) (fun j _ hj => hapart j hj) ?_
  · exact fun j hji hj hn => hji (ht.names j i hj hi hn)
  · rintro q hq rfl
    exact (List.nodup_cons.mp ht.owned_nodup).1 hq

/-- A free entry becomes a file over a block that a client owned. -/
lemma create (ht : TablesOk L t fds (p :: owned) l) (hi : (t i).inUse = 0#32)
    (hp : UsedBlock l p n) (hused : f.inUse ≠ 0#32) (hdata : f.data = p)
    (hcap : f.capacity.toNat ≤ n) (hsize : f.size.toNat ≤ f.capacity.toNat)
    (hnamed : f.nameString.length < 64)
    (hnames : ∀ j ≠ i, (t j).inUse ≠ 0#32 → (t j).nameString ≠ f.nameString) :
    TablesOk L (Function.update t i f) fds owned l := by
  have hapart := ht.owned_apart p List.mem_cons_self
  refine ht.setFile (List.sublist_cons_self _ _) (fun h => absurd hi h) hused hnamed hnames hsize
    (.block n (hdata ▸ hp) hcap) (fun j _ hj => hdata ▸ hapart j hj) ?_
  rintro q hq rfl
  exact (List.nodup_cons.mp ht.owned_nodup).1 (hdata ▸ hq)

end TablesOk

/-! ### Memory operations -/

/-- Writing memory of the clients keeps the heap's list. -/
lemma Heap.Models.setMem {k : Heap} {l : List Seg} {m : Memory} (hk : k.Models l)
    (h : ∀ y ∈ headerBytes 0x400000 l, k.mem y = m y) : Heap.Models { k with mem := m } l :=
  ⟨hk.initialized, hk.start, hk.rep.congr h, hk.arena⟩

namespace Inv

variable {L : Rodata} {k : Kernel} {owned : List Addr} {l : List Seg} {i j : Fin 32}

lemma clientByte (hk : Inv L k owned l) (hi : (k.virtualFiles i).inUse ≠ 0#32) {y : Addr}
    (hy : y ∈ span (k.virtualFiles i).data (k.virtualFiles i).capacity.toNat) : ClientByte l y :=
  (hk.tables.backed i hi).clientByte hy

/-- Different files lie apart. -/
lemma disjoint_files (hk : Inv L k owned l) (hi : (k.virtualFiles i).inUse ≠ 0#32)
    (hj : (k.virtualFiles j).inUse ≠ 0#32) (hij : i ≠ j) :
    Disjoint (span (k.virtualFiles i).data (k.virtualFiles i).capacity.toNat)
      (span (k.virtualFiles j).data (k.virtualFiles j).capacity.toNat) :=
  (hk.tables.backed i hi).disjoint hk.models (hk.tables.backed j hj) fun heq =>
    hij (hk.tables.data_inj i j hi hj heq)

/-- A request keeps the invariant; a granted block belongs to the clients. -/
theorem malloc (hk : Inv L k owned l) (n : Word) : ∃ p h l',
    k.malloc n = some (p, { k with heap := h, trace := .malloc n p :: k.trace })
    ∧ (∀ y, ClientByte l y → h.mem y = k.mem y)
    ∧ (p = NULL ∧ h = k.heap ∧ l' = l ∧ (n = 0#32 ∨ ¬k.heap.HasRoom (request n))
        ∧ Inv L { k with heap := h, trace := .malloc n p :: k.trace } owned l'
      ∨ p ≠ NULL ∧ n ≠ 0#32 ∧ k.heap.HasRoom (request n) ∧ (∀ m, ¬UsedBlock l p m)
        ∧ (∃ j, request n ≤ j ∧ UsedBlock l' p j) ∧ (∀ q m, UsedBlock l q m → UsedBlock l' q m)
        ∧ Inv L { k with heap := h, trace := .malloc n p :: k.trace } (p :: owned) l') := by
  obtain ⟨p, h, l', hm, hk', hframe, hout⟩ := hk.models.malloc n
  refine ⟨p, h, l', ?_, hframe, ?_⟩
  · rw [Kernel.malloc, hm]
    rfl
  rcases hout with ⟨rfl, rfl, rfl, hno⟩ | ⟨hn0, hroom, hnew, j, hj, hiff⟩
  · refine Or.inl ⟨rfl, rfl, rfl, hno, hk', hk.initialized, hk.tables, fun q hq => ?_⟩
    rw [← hk.live q hq]
    exact or_iff_right (Ne.symm hq)
  · have hpj : UsedBlock l' p j := (hiff p j).mpr (Or.inl ⟨rfl, rfl⟩)
    have hmono : ∀ q m, UsedBlock l q m → UsedBlock l' q m := fun q m hq =>
      (hiff q m).mpr (Or.inr hq)
    refine Or.inr ⟨hpj.ne_null hk', hn0, hroom, hnew, ⟨j, hj, hpj⟩, hmono, hk', hk.initialized,
      ?_, ?_⟩
    · refine (hk.tables.mono hmono).own hpj ?_ ?_
      · intro hp
        obtain ⟨m, hm⟩ := hk.tables.owned_used p hp
        exact hnew m hm
      · rintro i hi rfl
        cases hk.tables.backed i hi with
        | block m hdata hcap => exact hnew m hdata
        | welcome hi hdata hcap =>
            have hb := hpj.bounds hk'
            have hL := L.welcome_bounds
            rw [hdata] at hb
            omega
        | info hi hdata hcap =>
            have hb := hpj.bounds hk'
            have hL := L.info_bounds
            rw [hdata] at hb
            omega
    · intro q hq
      change p = q ∨ Live k.trace q ↔ _
      rw [hk.live q hq]
      constructor
      · rintro (rfl | ⟨m, hm⟩)
        · exact ⟨j, hpj⟩
        · exact ⟨m, hmono q m hm⟩
      · rintro ⟨m, hm⟩
        rcases (hiff q m).mp hm with ⟨rfl, -⟩ | hm
        · exact Or.inl rfl
        · exact Or.inr ⟨m, hm⟩

/-- The release of a pointer of the clients keeps the invariant. -/
theorem free {p : Addr} (hk : Inv L k owned l) (hp : p ∈ owned) : ∃ h l',
    k.free p = some (SYSCALL_OK, { k with heap := h, trace := .free p :: k.trace })
    ∧ (∀ y, ClientByte l y → h.mem y = k.mem y)
    ∧ (∀ q m, UsedBlock l' q m ↔ q ≠ p ∧ UsedBlock l q m)
    ∧ Inv L { k with heap := h, trace := .free p :: k.trace } (owned.erase p) l' := by
  obtain ⟨n, hn⟩ := hk.tables.owned_used p hp
  obtain ⟨h, l', hf, hk', hframe, hiff⟩ := hk.models.free hn
  refine ⟨h, l', ?_, hframe, hiff, hk', hk.initialized, hk.tables.release hp hiff, ?_⟩
  · rw [Kernel.free, hf]
    rfl
  · intro q hq
    change p ≠ q ∧ Live k.trace q ↔ _
    rw [hk.live q hq, ne_comm, ← exists_and_left]
    exact exists_congr fun m => (hiff q m).symm

/-- The release of a pointer below the heap keeps the invariant, but writes in front of it. -/
theorem freeOutside {p : Addr} (hk : Inv L k owned l) (hlo : 12 ≤ p.toNat)
    (hhi : p.toNat ≤ 0x400000) : ∃ h,
    k.free p = some (SYSCALL_OK, { k with heap := h, trace := .free p :: k.trace })
    ∧ (∀ y, ClientByte l y → y ∉ span (p - 8#32) 4 → h.mem y = k.mem y)
    ∧ Inv L { k with heap := h, trace := .free p :: k.trace } owned l := by
  obtain ⟨h, hf, hk', hframe⟩ := hk.models.free_outside hlo hhi
  refine ⟨h, ?_, hframe, hk', hk.initialized, hk.tables, ?_⟩
  · rw [Kernel.free, hf]
    rfl
  · intro q hq
    change p ≠ q ∧ Live k.trace q ↔ _
    rw [hk.live q hq]
    refine and_iff_right_of_imp ?_
    rintro ⟨m, hm⟩ rfl
    have hb := hm.bounds hk.models
    omega

/-- A copy into memory of the clients keeps the invariant. -/
theorem memcpy (hk : Inv L k owned l) {dst : Addr} (src : Addr) {num : Word}
    (hdst : ∀ y ∈ span dst (num.toNat % 65536), ClientByte l y) :
    Inv L (k.memcpy dst src num) owned l := by
  refine ⟨hk.models.setMem fun y hy => ?_, hk.initialized, hk.tables, hk.live⟩
  refine (copyBytes_of_notMem (by rw [toNat_len16]; omega) fun hin => ?_).symm
  rw [toNat_len16] at hin
  exact (hdst y hin).notMem_headerBytes hk.models hy

/-- A store into memory of the clients keeps the invariant. -/
lemma store (hk : Inv L k owned l) {a : Addr} (ha : ClientByte l a) (b : Byte) :
    Inv L { k with heap := { k.heap with mem := Function.update k.mem a b } } owned l := by
  refine ⟨hk.models.setMem fun y hy => ?_, hk.initialized, hk.tables, hk.live⟩
  refine (Function.update_of_ne ?_ _ _).symm
  rintro rfl
  exact ha.notMem_headerBytes hk.models hy

end Inv

/-! ### Initialisation -/

lemma literalFile_nameString {name text : CString} {data : Addr} (hname : name.chars.length < 64) :
    (literalFile name text data).nameString = name.chars :=
  VFile.nameString_eq hname fun _ _ => rfl

/-- The tables after `vfs_init`. -/
lemma tablesOk_vfsInit {L : Rodata} {k : Kernel} {l : List Seg} (hk : k.fsInitialized = false) :
    TablesOk L (vfsInit L k).virtualFiles (vfsInit L k).fileDescriptors [] l := by
  have hfiles : (vfsInit L k).virtualFiles = installedFiles L := by simp [vfsInit, hk]
  have hfds : (vfsInit L k).fileDescriptors = fun _ => FileDescriptor.zero := by
    simp [vfsInit, hk]
  have hcases : ∀ i, ((vfsInit L k).virtualFiles i).inUse ≠ 0#32 →
      i = 0 ∧ (vfsInit L k).virtualFiles i = literalFile welcomeName welcomeText L.welcome
        ∨ i = 1 ∧ (vfsInit L k).virtualFiles i = literalFile infoName infoText L.info := by
    intro i hi
    rw [hfiles] at hi ⊢
    by_cases h0 : i = 0
    · exact Or.inl ⟨h0, by simp [installedFiles, h0]⟩
    by_cases h1 : i = 1
    · exact Or.inr ⟨h1, by simp [installedFiles, h1]⟩
    · exact absurd (by simp [installedFiles, h0, h1, VFile.zero]) hi
  have hwelcome : (literalFile welcomeName welcomeText L.welcome).nameString = welcomeName.chars :=
    literalFile_nameString (by decide)
  have hinfo : (literalFile infoName infoText L.info).nameString = infoName.chars :=
    literalFile_nameString (by decide)
  have hnames : welcomeName.chars ≠ infoName.chars := by decide
  have hdata : L.welcome ≠ L.info := by
    have h := L.apart
    intro heq
    rw [heq] at h
    omega
  refine ⟨fun d hd => ?_, fun i hi => ?_, fun i j hi hj h => ?_, fun i hi => ?_, fun i hi => ?_,
    fun i j hi hj h => ?_, by simp, List.nodup_nil, by simp⟩
  · rw [hfds] at hd
    exact absurd rfl hd
  · rcases hcases i hi with ⟨-, heq⟩ | ⟨-, heq⟩ <;> rw [heq]
    · rw [hwelcome]
      decide
    · rw [hinfo]
      decide
  · rcases hcases i hi with ⟨hi0, heq⟩ | ⟨hi0, heq⟩ <;>
      rcases hcases j hj with ⟨hj0, heq'⟩ | ⟨hj0, heq'⟩
    · exact hi0.trans hj0.symm
    · rw [heq, heq', hwelcome, hinfo] at h
      exact absurd h hnames
    · rw [heq, heq', hwelcome, hinfo] at h
      exact absurd h.symm hnames
    · exact hi0.trans hj0.symm
  · rcases hcases i hi with ⟨-, heq⟩ | ⟨-, heq⟩ <;> rw [heq] <;> exact le_rfl
  · rcases hcases i hi with ⟨hi0, heq⟩ | ⟨hi0, heq⟩ <;> rw [heq]
    · exact .welcome hi0 rfl rfl
    · exact .info hi0 rfl rfl
  · rcases hcases i hi with ⟨hi0, heq⟩ | ⟨hi0, heq⟩ <;>
      rcases hcases j hj with ⟨hj0, heq'⟩ | ⟨hj0, heq'⟩
    · exact hi0.trans hj0.symm
    · rw [heq, heq'] at h
      exact absurd h hdata
    · rw [heq, heq'] at h
      exact absurd h.symm hdata
    · exact hi0.trans hj0.symm

/-- The invariant holds after `syscall_initialize`. -/
theorem inv_syscallInitialize {L : Rodata} {k : Kernel} (hheap : k.heap.heapInitialized = false)
    (hfs : k.fsInitialized = false) (htrace : k.trace = []) :
    Inv L (syscallInitialize L k) [] [⟨0x100000 - 12, true⟩] := by
  have hinit : syscallInitialize L k = { vfsInit L k with heap := heapInit k.heap } := by
    simp [syscallInitialize, vfsInit, hfs]
  rw [hinit]
  refine ⟨heapInit_models hheap, by simp [vfsInit, hfs], tablesOk_vfsInit hfs, fun p _ => ?_⟩
  have hnil : (vfsInit L k).trace = [] := by simp [vfsInit, hfs, htrace]
  rw [hnil]
  refine ⟨False.elim, ?_⟩
  rintro ⟨n, x, -, hx⟩
  simp [used_cons_free] at hx

end MiqOSoft
