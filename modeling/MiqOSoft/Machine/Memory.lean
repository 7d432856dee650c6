import Mathlib.Tactic
import Mathlib.Data.Set.Lattice
import Mathlib.Order.CompletePartialOrder

/-!
A flat 32-bit byte-addressed memory.

* `Memory`, `load32`, `store32`, `wordAt`: bytes at 32-bit addresses, and little-endian words
  over them and over byte images.  Address arithmetic is that of `BitVec 32`, so a pointer
  wraps as it does on the machine.
* `span`: the addresses `[base, base + len)`, read modulo `2^32`.  Away from the top of the
  address space (`mem_span_iff`) it is an interval of numbers, and disjointness of spans is a
  comparison of their ends (`disjoint_span`).
* `copyBytes`, `fillBytes`, `storeBytes`: the forward byte copy, the fill, and the store of
  given bytes.  Outside the destination nothing changes (`copyBytes_of_notMem`); inside it, a
  copy between disjoint spans delivers the source (`copyBytes_of_disjoint`), one onto the bytes
  still to be read repeats what lies in front (`copyBytes_of_lt`).
-/

namespace Machine

/-- A machine address. -/
abbrev Addr := BitVec 32

/-- A machine word. -/
abbrev Word := BitVec 32

/-- A byte. -/
abbrev Byte := BitVec 8

/-- A memory: a byte at every address. -/
abbrev Memory := Addr → Byte

/-! ### Rounding by masks -/

lemma and_not_lowMask (x : Word) (k : ℕ) :
    x &&& ~~~BitVec.ofNat 32 (2 ^ k - 1) = (x >>> k) <<< k := by
  ext i hi
  have hbit : (BitVec.ofNat 32 (2 ^ k - 1)).getLsbD i = decide (i < k) := by
    rw [BitVec.getLsbD_ofNat, Nat.testBit_two_pow_sub_one]
    simp [hi]
  rw [← BitVec.getLsbD_eq_getElem, ← BitVec.getLsbD_eq_getElem, BitVec.getLsbD_and,
    BitVec.getLsbD_not, hbit, BitVec.getLsbD_shiftLeft, BitVec.getLsbD_ushiftRight]
  grind

/-- Clearing the low `k` bits rounds down to a multiple of `2 ^ k`. -/
lemma toNat_and_not_lowMask (x : Word) {k : ℕ} :
    (x &&& ~~~BitVec.ofNat 32 (2 ^ k - 1)).toNat = x.toNat / 2 ^ k * 2 ^ k := by
  have := x.isLt
  have hle : x.toNat / 2 ^ k * 2 ^ k ≤ x.toNat := Nat.div_mul_le_self _ _
  rw [and_not_lowMask, BitVec.toNat_shiftLeft, BitVec.toNat_ushiftRight, Nat.shiftLeft_eq,
    Nat.shiftRight_eq_div_pow, Nat.mod_eq_of_lt (by omega)]

/-! ### Spans of addresses -/

/-- The `len` addresses from `base` on, wrapping at the top of the address space. -/
def span (base : Addr) (len : ℕ) : Set Addr := {a | (a - base).toNat < len}

lemma mem_span {base a : Addr} {len : ℕ} : a ∈ span base len ↔ (a - base).toNat < len :=
  Iff.rfl

instance (base a : Addr) (len : ℕ) : Decidable (a ∈ span base len) :=
  inferInstanceAs (Decidable ((a - base).toNat < len))

@[simp] lemma span_zero (base : Addr) : span base 0 = ∅ := by
  ext a
  simp [mem_span]

lemma span_mono {base : Addr} {len len' : ℕ} (h : len ≤ len') : span base len ⊆ span base len' :=
  fun _ ha => Nat.lt_of_lt_of_le ha h

/-- A piece of a span. -/
lemma span_add_subset {base off : Addr} {n len : ℕ} (h : off.toNat + n ≤ len) :
    span (base + off) n ⊆ span base len := by
  intro a ha
  rw [mem_span] at ha ⊢
  bv_omega

/-- The address at offset `k` from `base`, as an offset. -/
lemma toNat_add_ofNat_sub (base : Addr) {k : ℕ} (hk : k < 2 ^ 32) :
    (base + BitVec.ofNat 32 k - base).toNat = k := by
  bv_omega

lemma add_ofNat_mem_span {base : Addr} {k len : ℕ} (hk : k < len) (hlen : len ≤ 2 ^ 32) :
    base + BitVec.ofNat 32 k ∈ span base len := by
  rw [mem_span, toNat_add_ofNat_sub base (by omega)]
  exact hk

/-- A span that does not wrap is an interval. -/
lemma mem_span_iff {base a : Addr} {len : ℕ} (h : base.toNat + len ≤ 2 ^ 32) :
    a ∈ span base len ↔ base.toNat ≤ a.toNat ∧ a.toNat < base.toNat + len := by
  rw [mem_span]
  constructor <;> intro ha <;> bv_omega

/-- Spans that do not wrap and whose intervals do not meet are disjoint. -/
lemma disjoint_span {b b' : Addr} {len len' : ℕ} (hb : b.toNat + len ≤ 2 ^ 32)
    (hb' : b'.toNat + len' ≤ 2 ^ 32)
    (h : b.toNat + len ≤ b'.toNat ∨ b'.toNat + len' ≤ b.toNat) :
    Disjoint (span b len) (span b' len') := by
  rw [Set.disjoint_left]
  intro a ha ha'
  rw [mem_span_iff hb] at ha
  rw [mem_span_iff hb'] at ha'
  omega

/-! ### Words -/

/-- The little-endian word at `a`. -/
def load32 (m : Memory) (a : Addr) : Word :=
  m (a + 3#32) ++ m (a + 2#32) ++ m (a + 1#32) ++ m a

/-- The little-endian half word at `a`. -/
def load16 (m : Memory) (a : Addr) : BitVec 16 := m (a + 1#32) ++ m a

/-- The little-endian word at offset `o` of a byte image. -/
def wordAt (b : ℕ → Byte) (o : ℕ) : Word := b (o + 3) ++ b (o + 2) ++ b (o + 1) ++ b o

/-- The little-endian half word at offset `o` of a byte image. -/
def halfAt (b : ℕ → Byte) (o : ℕ) : BitVec 16 := b (o + 1) ++ b o

lemma toNat_halfAt (b : ℕ → Byte) (o : ℕ) :
    (halfAt b o).toNat = (b o).toNat + 256 * (b (o + 1)).toNat := by
  have := (b o).isLt
  rw [halfAt, BitVec.toNat_append, Nat.shiftLeft_eq, Nat.mul_comm,
    ← Nat.two_pow_add_eq_or_of_lt (by omega)]
  omega

lemma toNat_wordAt (b : ℕ → Byte) (o : ℕ) :
    (wordAt b o).toNat = (b o).toNat + 256 * (b (o + 1)).toNat + 65536 * (b (o + 2)).toNat
      + 16777216 * (b (o + 3)).toNat := by
  have h0 := (b o).isLt
  have h1 := (b (o + 1)).isLt
  have h2 := (b (o + 2)).isLt
  rw [wordAt, BitVec.toNat_append, BitVec.toNat_append, BitVec.toNat_append]
  simp only [Nat.shiftLeft_eq, Nat.mul_comm _ (2 ^ 8)]
  rw [← Nat.two_pow_add_eq_or_of_lt (by omega), ← Nat.two_pow_add_eq_or_of_lt (by omega),
    ← Nat.two_pow_add_eq_or_of_lt (by omega)]
  omega

/-- Byte `i` of a word, counted from the least significant one. -/
def wordByte (w : Word) (i : ℕ) : Byte := w.extractLsb' (8 * i) 8

/-- Storing the word `w` at `a`. -/
def store32 (m : Memory) (a : Addr) (w : Word) : Memory :=
  fun x => if (x - a).toNat < 4 then wordByte w (x - a).toNat else m x

/-- A word is the concatenation of its bytes. -/
lemma wordByte_append (w : Word) :
    wordByte w 3 ++ wordByte w 2 ++ wordByte w 1 ++ wordByte w 0 = w := by
  simp only [wordByte]
  rw [BitVec.extractLsb'_append_extractLsb'_eq_extractLsb' (by rfl),
    BitVec.extractLsb'_append_extractLsb'_eq_extractLsb' (by rfl),
    BitVec.extractLsb'_append_extractLsb'_eq_extractLsb' (by rfl)]
  exact BitVec.extractLsb'_eq_self

/-- The word whose bytes lie at `a`. -/
lemma load32_of_bytes {m : Memory} {a : Addr} {w : Word} (h0 : m a = wordByte w 0)
    (h1 : m (a + 1#32) = wordByte w 1) (h2 : m (a + 2#32) = wordByte w 2)
    (h3 : m (a + 3#32) = wordByte w 3) : load32 m a = w := by
  rw [load32, h0, h1, h2, h3]
  exact wordByte_append w

/-- A stored word is read back. -/
@[simp] lemma load32_store32_self (m : Memory) (a : Addr) (w : Word) :
    load32 (store32 m a w) a = w := by
  have h3 : (a + 3#32 - a).toNat = 3 := by bv_omega
  have h2 : (a + 2#32 - a).toNat = 2 := by bv_omega
  have h1 : (a + 1#32 - a).toNat = 1 := by bv_omega
  have h0 : (a - a).toNat = 0 := by bv_omega
  simp only [load32, store32, h3, h2, h1, h0, Nat.lt_add_one, Nat.reduceLT, ↓reduceIte]
  exact wordByte_append w

/-- A store changes no byte outside its four. -/
lemma store32_of_notMem {m : Memory} {a x : Addr} (w : Word) (h : x ∉ span a 4) :
    store32 m a w x = m x :=
  if_neg h

/-- A load depends on its four bytes only. -/
lemma load32_congr {m m' : Memory} {a : Addr} (h : ∀ x ∈ span a 4, m x = m' x) :
    load32 m a = load32 m' a := by
  have hmem : ∀ k < 4, a + BitVec.ofNat 32 k ∈ span a 4 :=
    fun k hk => add_ofNat_mem_span hk (by omega)
  have h0 : a ∈ span a 4 := by simpa using hmem 0 (by omega)
  rw [load32, load32, h _ (hmem 3 (by omega)), h _ (hmem 2 (by omega)),
    h _ (hmem 1 (by omega)), h _ h0]

/-- A load at an offset depends on the bytes at that offset only, wherever they lie. -/
lemma load32_add_congr {m m' : Memory} {a b : Addr} {n : ℕ}
    (h : ∀ k < n, m (a + BitVec.ofNat 32 k) = m' (b + BitVec.ofNat 32 k)) {o : ℕ} (ho : o + 4 ≤ n) :
    load32 m (a + BitVec.ofNat 32 o) = load32 m' (b + BitVec.ofNat 32 o) := by
  have hbyte : ∀ i < 4, m (a + BitVec.ofNat 32 o + BitVec.ofNat 32 i)
      = m' (b + BitVec.ofNat 32 o + BitVec.ofNat 32 i) := by
    intro i hi
    rw [BitVec.add_assoc, BitVec.add_assoc, ← BitVec.ofNat_add]
    exact h _ (by omega)
  have h0 := h o (by omega)
  rw [load32, load32, hbyte 3 (by omega), hbyte 2 (by omega), hbyte 1 (by omega), h0]

/-- The same of a half word. -/
lemma load16_add_congr {m m' : Memory} {a b : Addr} {n : ℕ}
    (h : ∀ k < n, m (a + BitVec.ofNat 32 k) = m' (b + BitVec.ofNat 32 k)) {o : ℕ} (ho : o + 2 ≤ n) :
    load16 m (a + BitVec.ofNat 32 o) = load16 m' (b + BitVec.ofNat 32 o) := by
  have h1 : m (a + BitVec.ofNat 32 o + BitVec.ofNat 32 1)
      = m' (b + BitVec.ofNat 32 o + BitVec.ofNat 32 1) := by
    rw [BitVec.add_assoc, BitVec.add_assoc, ← BitVec.ofNat_add]
    exact h _ (by omega)
  rw [load16, load16, h1, h o (by omega)]

/-- A store leaves the words it does not meet. -/
lemma load32_store32_of_disjoint {m : Memory} {a b : Addr} (w : Word)
    (h : Disjoint (span a 4) (span b 4)) : load32 (store32 m a w) b = load32 m b :=
  load32_congr fun _ hx => store32_of_notMem w (Set.disjoint_right.mp h hx)

/-- A store leaves the words it does not meet, for addresses given as numbers. -/
lemma load32_store32_ofNat {m : Memory} {a b : ℕ} (w : Word) (ha : a + 4 ≤ 2 ^ 32)
    (hb : b + 4 ≤ 2 ^ 32) (h : a + 4 ≤ b ∨ b + 4 ≤ a) :
    load32 (store32 m (BitVec.ofNat 32 a) w) (BitVec.ofNat 32 b)
      = load32 m (BitVec.ofNat 32 b) := by
  refine load32_store32_of_disjoint w (disjoint_span ?_ ?_ ?_) <;>
    simp only [BitVec.toNat_ofNat] <;> omega

/-! ### Copying and filling -/

/-- The memory after copying `n` bytes from `src` to `dst`, one at a time from the first. -/
def copyBytes (dst src : Addr) : ℕ → Memory → Memory
  | 0, m => m
  | n + 1, m =>
      let m' := copyBytes dst src n m
      Function.update m' (dst + BitVec.ofNat 32 n) (m' (src + BitVec.ofNat 32 n))

/-- The memory after storing `b` in the `n` bytes from `dst` on. -/
def fillBytes (dst : Addr) (b : Byte) : ℕ → Memory → Memory
  | 0, m => m
  | n + 1, m => Function.update (fillBytes dst b n m) (dst + BitVec.ofNat 32 n) b

/-- A copy changes no byte outside its destination. -/
lemma copyBytes_of_notMem {dst src x : Addr} {m : Memory} {n : ℕ} (hn : n ≤ 2 ^ 32)
    (hx : x ∉ span dst n) : copyBytes dst src n m x = m x := by
  induction n with
  | zero => rfl
  | succ n ih =>
      have hne : x ≠ dst + BitVec.ofNat 32 n := by
        rintro rfl
        exact hx (add_ofNat_mem_span (Nat.lt_succ_self n) hn)
      rw [copyBytes, Function.update_of_ne hne]
      exact ih (by omega) fun h => hx (span_mono (Nat.le_succ n) h)

/-- A copy between disjoint spans delivers the source bytes. -/
lemma copyBytes_of_disjoint {dst src : Addr} {m : Memory} {n : ℕ} (hn : n ≤ 2 ^ 32)
    (hd : Disjoint (span dst n) (span src n)) (k : ℕ) (hk : k < n) :
    copyBytes dst src n m (dst + BitVec.ofNat 32 k) = m (src + BitVec.ofNat 32 k) := by
  induction n with
  | zero => exact absurd hk (Nat.not_lt_zero k)
  | succ n ih =>
      have hd' : Disjoint (span dst n) (span src n) :=
        hd.mono (span_mono (Nat.le_succ n)) (span_mono (Nat.le_succ n))
      rw [copyBytes]
      rcases Nat.lt_succ_iff_lt_or_eq.mp hk with hk' | rfl
      · have hne : dst + BitVec.ofNat 32 k ≠ dst + BitVec.ofNat 32 n := by bv_omega
        rw [Function.update_of_ne hne]
        exact ih (by omega) hd' hk'
      · rw [Function.update_self]
        refine copyBytes_of_notMem (by omega) fun h => ?_
        exact Set.disjoint_left.mp hd (span_mono (Nat.le_succ k) h)
          (add_ofNat_mem_span (Nat.lt_succ_self k) hn)

/-- **A copy between spans that may overlap**: where the destination starts among the source bytes,
those in front of it are delivered over and over. -/
lemma copyBytes_of_lt {dst src : Addr} {m : Memory} {n : ℕ} (hn : n ≤ 2 ^ 32) (k : ℕ)
    (hk : k < n) : copyBytes dst src n m (dst + BitVec.ofNat 32 k)
      = m (src + BitVec.ofNat 32 (k % (dst - src).toNat)) := by
  induction n generalizing k with
  | zero => exact absurd hk (Nat.not_lt_zero k)
  | succ n ih =>
      rw [copyBytes]
      rcases Nat.lt_succ_iff_lt_or_eq.mp hk with hk' | rfl
      · have hne : dst + BitVec.ofNat 32 k ≠ dst + BitVec.ofNat 32 n := by bv_omega
        rw [Function.update_of_ne hne]
        exact ih (by omega) k hk'
      · rw [Function.update_self]
        have hgap := (dst - src).isLt
        by_cases hin : (dst - src).toNat ≤ k ∧ 0 < (dst - src).toNat
        · -- the byte read has been written before
          have hback : src + BitVec.ofNat 32 k
              = dst + BitVec.ofNat 32 (k - (dst - src).toNat) := by bv_omega
          rw [hback, ih (by omega) _ (by omega), Nat.mod_eq_sub_mod hin.1]
        · have hmod : k % (dst - src).toNat = k := by
            rcases Nat.eq_zero_or_pos (dst - src).toNat with h | h
            · rw [h, Nat.mod_zero]
            · exact Nat.mod_eq_of_lt (by omega)
          rw [hmod]
          refine copyBytes_of_notMem (by omega) fun h => ?_
          rw [mem_span] at h
          bv_omega

/-- A fill changes no byte outside its destination. -/
lemma fillBytes_of_notMem {dst x : Addr} {b : Byte} {m : Memory} {n : ℕ} (hn : n ≤ 2 ^ 32)
    (hx : x ∉ span dst n) : fillBytes dst b n m x = m x := by
  induction n with
  | zero => rfl
  | succ n ih =>
      have hne : x ≠ dst + BitVec.ofNat 32 n := by
        rintro rfl
        exact hx (add_ofNat_mem_span (Nat.lt_succ_self n) hn)
      rw [fillBytes, Function.update_of_ne hne]
      exact ih (by omega) fun h => hx (span_mono (Nat.le_succ n) h)

/-- A fill stores its byte all over its destination. -/
lemma fillBytes_of_lt {dst : Addr} {b : Byte} {m : Memory} {n : ℕ} (hn : n ≤ 2 ^ 32) (k : ℕ)
    (hk : k < n) : fillBytes dst b n m (dst + BitVec.ofNat 32 k) = b := by
  induction n with
  | zero => exact absurd hk (Nat.not_lt_zero k)
  | succ n ih =>
      rw [fillBytes]
      rcases Nat.lt_succ_iff_lt_or_eq.mp hk with hk' | rfl
      · have hne : dst + BitVec.ofNat 32 k ≠ dst + BitVec.ofNat 32 n := by bv_omega
        rw [Function.update_of_ne hne]
        exact ih (by omega) hk'
      · rw [Function.update_self]

/-- The memory after storing the bytes `f 0`, `f 1`, … in the `n` bytes from `dst` on. -/
def storeBytes (dst : Addr) (f : ℕ → Byte) : ℕ → Memory → Memory
  | 0, m => m
  | n + 1, m => Function.update (storeBytes dst f n m) (dst + BitVec.ofNat 32 n) (f n)

/-- A store of bytes changes no byte outside its destination. -/
lemma storeBytes_of_notMem {dst x : Addr} {f : ℕ → Byte} {m : Memory} {n : ℕ} (hn : n ≤ 2 ^ 32)
    (hx : x ∉ span dst n) : storeBytes dst f n m x = m x := by
  induction n with
  | zero => rfl
  | succ n ih =>
      have hne : x ≠ dst + BitVec.ofNat 32 n := by
        rintro rfl
        exact hx (add_ofNat_mem_span (Nat.lt_succ_self n) hn)
      rw [storeBytes, Function.update_of_ne hne]
      exact ih (by omega) fun h => hx (span_mono (Nat.le_succ n) h)

/-- Stored bytes are read back. -/
lemma storeBytes_of_lt {dst : Addr} {f : ℕ → Byte} {m : Memory} {n : ℕ} (hn : n ≤ 2 ^ 32) (k : ℕ)
    (hk : k < n) : storeBytes dst f n m (dst + BitVec.ofNat 32 k) = f k := by
  induction n with
  | zero => exact absurd hk (Nat.not_lt_zero k)
  | succ n ih =>
      rw [storeBytes]
      rcases Nat.lt_succ_iff_lt_or_eq.mp hk with hk' | rfl
      · have hne : dst + BitVec.ofNat 32 k ≠ dst + BitVec.ofNat 32 n := by bv_omega
        rw [Function.update_of_ne hne]
        exact ih (by omega) hk'
      · rw [Function.update_self]

/-! ### Signed words -/

/-- A number that fits into a word. -/
lemma toNat_ofNat_of_lt {w n : ℕ} (hn : n < 2 ^ w) : (BitVec.ofNat w n).toNat = n := by
  rw [BitVec.toNat_ofNat, Nat.mod_eq_of_lt hn]

/-- A number below `2 ^ 31`, as a signed word. -/
lemma toInt_ofNat {n : ℕ} (hn : n < 2 ^ 31) : (BitVec.ofNat 32 n).toInt = n := by
  have htoNat : (BitVec.ofNat 32 n).toNat = n := toNat_ofNat_of_lt (by omega)
  rw [BitVec.toInt_eq_toNat_of_lt (by omega), htoNat]

lemma sle_ofNat {n k : ℕ} (hn : n < 2 ^ 31) (hk : k < 2 ^ 31) :
    (BitVec.ofNat 32 n).sle (BitVec.ofNat 32 k) ↔ n ≤ k := by
  rw [BitVec.sle_iff_toInt_le, toInt_ofNat hn, toInt_ofNat hk]
  exact Int.ofNat_le

lemma slt_ofNat {n k : ℕ} (hn : n < 2 ^ 31) (hk : k < 2 ^ 31) :
    (BitVec.ofNat 32 n).slt (BitVec.ofNat 32 k) ↔ n < k := by
  rw [BitVec.slt_iff_toInt_lt, toInt_ofNat hn, toInt_ofNat hk]
  exact Int.ofNat_lt

end Machine
