import MiqOSoft.Kernel.Vfs

/-!
The file table.

* `VFile.nameString`: the name of a file, up to its first NUL.  A lookup of a path compares it
  with the path (`strcmp_nameAt`).
* `VFile.ofBytes_byte`: a file is determined by its byte image.
* `FileTable.strcpyName_of_lt`, `strcpyName_of_le`, `strcpyName_overrun`: a path shorter than
  the name field is copied into it, a path of up to 80 characters stays in front of `in_use`,
  and a longer one makes `in_use` nonzero.
-/

namespace MiqOSoft

open Machine

/-! ### Byte images -/

/-- Joining the bytes of a word. -/
lemma wordAt_eq {b : ℕ → Byte} {o : ℕ} {w : Word} (h : ∀ i < 4, b (o + i) = wordByte w i) :
    wordAt b o = w := by
  have h0 : b o = wordByte w 0 := h 0 (by omega)
  rw [wordAt, h 3 (by omega), h 2 (by omega), h 1 (by omega), h0, wordByte_append]

lemma wordAt_congr {b b' : ℕ → Byte} {o : ℕ} (h : ∀ i < 4, b (o + i) = b' (o + i)) :
    wordAt b o = wordAt b' o := by
  have h0 : b o = b' o := h 0 (by omega)
  rw [wordAt, wordAt, h 3 (by omega), h 2 (by omega), h 1 (by omega), h0]

/-- A byte of a word that was joined from bytes. -/
lemma wordByte_wordAt (b : ℕ → Byte) (o : ℕ) {n : ℕ} (hn : n < 4) :
    wordByte (wordAt b o) n = b (o + n) := by
  interval_cases n
  all_goals
    simp only [wordByte, wordAt, BitVec.extractLsb'_append_eq_ite]
    simp

namespace VFile

/-- A file is determined by its byte image. -/
theorem ofBytes_byte (f : VFile) : ofBytes f.byte = f := by
  obtain ⟨name, data, size, capacity, isDirectory, inUse⟩ := f
  rw [ofBytes]
  congr 1
  · funext k
    simp [byte]
  all_goals
    refine wordAt_eq fun i hi => ?_
    simp only [byte]
    repeat rw [dif_neg (by omega)]
    repeat rw [if_neg (by omega)]
    try rw [if_pos (by omega)]
    congr 1
    omega

lemma ofBytes_congr {b b' : ℕ → Byte} (h : ∀ o < 84, b o = b' o) : ofBytes b = ofBytes b' := by
  rw [ofBytes, ofBytes]
  congr 1
  · funext k
    exact h k (by omega)
  all_goals exact wordAt_congr fun i hi => h _ (by omega)

/-- A byte image is read back. -/
lemma byte_ofBytes (b : ℕ → Byte) {o : ℕ} (ho : o < 84) : (ofBytes b).byte o = b o := by
  simp only [byte, ofBytes]
  split_ifs with h64 h68 h72 h76 h80
  · rfl
  all_goals
    rw [wordByte_wordAt b _ (by omega)]
    congr 1
    omega

lemma inUse_ofBytes_eq_zero {b : ℕ → Byte} (h : ∀ o < 4, b (80 + o) = 0#8) :
    (ofBytes b).inUse = 0#32 := by
  have hword : wordAt b 80 = 0#32 := wordAt_eq fun o ho => by
    rw [h o ho]
    simp [wordByte]
  exact hword

/-- The `in_use` field of a free file is zero in its byte image. -/
lemma byte_inUse {f : VFile} (hf : f.inUse = 0#32) (o : ℕ) : f.byte (80 + o) = 0#8 := by
  rw [byte, dif_neg (by omega), if_neg (by omega), if_neg (by omega), if_neg (by omega),
    if_neg (by omega), hf]
  simp [wordByte]

/-- The name of a file, up to its first NUL. -/
def nameString (f : VFile) : List Byte := textOf (List.ofFn f.name)

/-- A terminated name reads as its string. -/
lemma name_eq {f : VFile} (hf : f.nameString.length < 64) {k : ℕ}
    (hk : k ≤ f.nameString.length) :
    f.name ⟨k, by omega⟩ = f.nameString.getD k 0#8 := by
  rw [nameString, ← getD_textOf hk, List.getD_eq_getElem _ _ (by simp; omega), List.getElem_ofFn]

lemma nameString_eq {f : VFile} {path : CString} (hlen : path.chars.length < 64)
    (h : ∀ k : Fin 64, (k : ℕ) ≤ path.chars.length → f.name k = path.byte k) :
    f.nameString = path.chars := by
  refine textOf_eq path.noNul (by simpa using hlen) fun k hk => ?_
  rw [List.getD_eq_getElem _ _ (by simp; omega), List.getElem_ofFn]
  exact h ⟨k, by omega⟩ hk

end VFile

namespace FileTable

variable {t : FileTable} {i : Fin 32} {path : CString}

/-- The first 64 characters at a name are those of the name field. -/
lemma nameAt_of_lt {k : ℕ} (hk : k < 64) : t.nameAt i k = (t i).name ⟨k, hk⟩ := by
  have hi : (84 * (i : ℕ) + k) / 84 = i := by omega
  have hk' : (84 * (i : ℕ) + k) % 84 = k := by omega
  simp only [nameAt, byte, hi, hk', i.isLt, ↓reduceDIte, Fin.eta, VFile.byte, hk]

/-- A lookup compares the name of the file with the path. -/
theorem strcmp_nameAt (hname : (t i).nameString.length < 64) :
    strcmp (t.nameAt i) path.chars = 0 ↔ (t i).nameString = path.chars := by
  refine strcmp_eq_zero_iff (zero_notMem_textOf _) path.noNul fun k hk => ?_
  rw [nameAt_of_lt (by omega), VFile.name_eq hname hk]

/-- Entry `j` after the copy of a path to the name of entry `i`. -/
lemma strcpyName_eq_some {t' : FileTable} (h : t.strcpyName i path = some t') (j : Fin 32) :
    t' j = VFile.ofBytes fun o =>
      if 84 * (i : ℕ) ≤ 84 * j + o ∧ 84 * j + o ≤ 84 * i + path.chars.length then
        path.byte (84 * j + o - 84 * i)
      else (t j).byte o := by
  rw [strcpyName] at h
  split_ifs at h
  exact congrFun (Option.some.inj h).symm j

/-- Byte `o` of entry `i`. -/
lemma byte_add (i : Fin 32) {o : ℕ} (ho : o < 84) : t.byte (84 * i + o) = (t i).byte o := by
  have hdiv : (84 * (i : ℕ) + o) / 84 = i := by omega
  have hmod : (84 * (i : ℕ) + o) % 84 = o := by omega
  simp only [byte, hdiv, hmod, i.isLt, ↓reduceDIte, Fin.eta]

/-- Byte `n` of the table after the copy of a path to the name of entry `i`. -/
lemma byte_strcpyName {t' : FileTable} (h : t.strcpyName i path = some t') {n : ℕ} (hn : n < 2688) :
    t'.byte n = if 84 * (i : ℕ) ≤ n ∧ n ≤ 84 * i + path.chars.length then path.byte (n - 84 * i)
      else t.byte n := by
  have hlt : n / 84 < 32 := by omega
  have hmod : n % 84 < 84 := Nat.mod_lt _ (by decide)
  have hsplit : 84 * (n / 84) + n % 84 = n := Nat.div_add_mod n 84
  simp only [byte, hlt, ↓reduceDIte]
  rw [strcpyName_eq_some h, VFile.byte_ofBytes _ hmod]
  dsimp only
  rw [hsplit]

/-- Entries with the same bytes are the same. -/
lemma ext_byte {t' : FileTable} (h : ∀ o < 84, t.byte (84 * i + o) = t'.byte (84 * i + o)) :
    t i = t' i := by
  rw [← VFile.ofBytes_byte (t i), ← VFile.ofBytes_byte (t' i)]
  refine VFile.ofBytes_congr fun o ho => ?_
  rw [← byte_add i ho, ← byte_add i ho, h o ho]

/-- A path that ends inside the entry leaves the other entries. -/
lemma strcpyName_of_ne {t' : FileTable} (h : t.strcpyName i path = some t')
    (hlen : path.chars.length < 84) {j : Fin 32} (hj : j ≠ i) : t' j = t j := by
  rw [strcpyName_eq_some h]
  refine Eq.trans (VFile.ofBytes_congr fun o ho => ?_) (VFile.ofBytes_byte _)
  have : (j : ℕ) ≠ i := fun heq => hj (Fin.ext heq)
  exact if_neg (by omega)

/-- A path shorter than the name field is copied into it. -/
theorem strcpyName_of_lt (hlen : path.chars.length < 64) :
    ∃ name, t.strcpyName i path = some (Function.update t i { t i with name := name })
      ∧ ∀ f : VFile, f.name = name → f.nameString = path.chars := by
  refine ⟨fun k => if (k : ℕ) ≤ path.chars.length then path.byte k else (t i).name k, ?_, ?_⟩
  · have hfit : 84 * (i : ℕ) + path.chars.length < 2688 := by omega
    obtain ⟨t', ht'⟩ : ∃ t', t.strcpyName i path = some t' := by
      rw [strcpyName, if_pos hfit]
      exact ⟨_, rfl⟩
    rw [ht']
    refine congrArg some (funext fun j => ?_)
    by_cases hj : j = i
    · subst hj
      rw [strcpyName_eq_some ht', Function.update_self]
      refine Eq.trans (VFile.ofBytes_congr fun o ho => ?_) (VFile.ofBytes_byte _)
      by_cases ho64 : o < 64
      · simp only [VFile.byte, ho64, ↓reduceDIte]
        refine if_congr (by omega) ?_ rfl
        rw [Nat.add_sub_cancel_left]
      · rw [if_neg (by omega)]
        simp only [VFile.byte, dif_neg ho64]
    · rw [strcpyName_of_ne ht' (by omega) hj, Function.update_of_ne hj]
  · intro f hf
    refine VFile.nameString_eq hlen fun k hk => ?_
    rw [hf]
    exact if_pos hk

/-- A path of up to 80 characters stays in the entry, and leaves it free. -/
theorem strcpyName_of_le (hlen : path.chars.length ≤ 80) (hfree : (t i).inUse = 0#32) :
    ∃ t', t.strcpyName i path = some t' ∧ (t' i).inUse = 0#32 ∧ ∀ j ≠ i, t' j = t j := by
  have hfit : 84 * (i : ℕ) + path.chars.length < 2688 := by omega
  obtain ⟨t', ht'⟩ : ∃ t', t.strcpyName i path = some t' := by
    rw [strcpyName, if_pos hfit]
    exact ⟨_, rfl⟩
  refine ⟨t', ht', ?_, fun j hj => strcpyName_of_ne ht' (by omega) hj⟩
  rw [strcpyName_eq_some ht']
  refine VFile.inUse_ofBytes_eq_zero fun o ho => ?_
  -- at most the terminator is copied to the last field, which is zero already
  split_ifs
  · exact path.byte_of_length_le (by omega)
  · exact VFile.byte_inUse hfree o

/-- A longer path makes the entry's `in_use` nonzero. -/
theorem strcpyName_overrun {t' : FileTable} (h : t.strcpyName i path = some t')
    (hlen : 80 < path.chars.length) : (t' i).inUse ≠ 0#32 := by
  rw [strcpyName_eq_some h]
  intro hzero
  have hbyte : path.byte 80 = 0#8 := by
    have hlow := congrArg (fun w : Word => w.setWidth 8) hzero
    simp only [VFile.ofBytes, wordAt, BitVec.setWidth_append] at hlow
    simpa [hlen.le] using hlow
  exact path.byte_ne_zero hlen hbyte

end FileTable

end MiqOSoft
