import MiqOSoft.Boot.Fat
import MiqOSoft.Common.Strings
import MiqOSoft.Editing.Line

/-!
`FAT_GetShortName` on the array it fills and the string it reads.

* `fatGetShortNameArray`: the function with its accesses.  It is undefined where it reads behind
  the terminator of the name or stores outside of the array.
* `fatGetShortNameArray_eq`: it is defined for every name, and leaves the eleven characters of
  `fatGetShortName` and a NUL.
* `DosName`: a valid name of at most eight characters with an extension of at most three.
* `shortName_dosName`: such names are upper-cased and padded, and two of them are the same on the
  disk exactly if they are the same up to the case of their letters.
-/

namespace MiqOSoft

open Machine Editing

/-! ### The function with its accesses -/

/-- `strchr` on what may be read of a string, from place `i` of it on: the place of the character,
or the null pointer. -/
def strchr (chr : Byte) : List Byte → ℕ → Option (Option ℕ)
  | [], _ => none
  | c :: str, i =>
      if c ≠ 0#8 then
        if c = chr then some (some i) else strchr chr str (i + 1)
      else some none

/-- A loop of `FAT_GetShortName`, with so many turns to go: characters of the name from place `i` on
are stored from place `d` on, up to a NUL or a place that is not to be taken. -/
def shortNameLoop (name : List Byte) (taken : ℕ → Bool) :
    ℕ → ℕ → ℕ → Vector Byte 12 → Option (Vector Byte 12)
  | 0, _, _, shortName => some shortName
  | left + 1, i, d, shortName => do
      let c ← name[i]?
      if c ≠ 0#8 ∧ taken i then
        let shortName ← store shortName d (toupper c)
        shortNameLoop name taken left (i + 1) (d + 1) shortName
      else some shortName

/-- `FAT_GetShortName`.  What may be read of the name ends with its terminator. -/
def fatGetShortNameArray (name : CString) : Option (Vector Byte 12) := do
  let str := name.chars ++ [0#8]
  let shortName ← store (Vector.replicate 12 0x20#8) 11 0#8
  let dot ← strchr 0x2E#8 str 0
  let ext := dot.getD 11
  let shortName ← shortNameLoop str (fun i => decide (i < ext)) 8 0 0 shortName
  if ext ≠ 11 then shortNameLoop str (fun _ => true) 3 (ext + 1) 8 shortName
  else some shortName

/-! ### What it leaves -/

lemma strchr_eq {chr : Byte} {s : List Byte} (hs : 0#8 ∉ s) (i : ℕ) :
    strchr chr (s ++ [0#8]) i = some ((s.idxOf? chr).map (· + i)) := by
  induction s generalizing i with
  | nil => simp [strchr]
  | cons c s ih =>
      obtain ⟨hc, hs⟩ := not_or.mp (mt List.mem_cons.mpr hs)
      rw [List.cons_append, strchr, if_pos (Ne.symm hc), List.idxOf?_cons]
      by_cases heq : c = chr
      · simp [heq]
      · rw [if_neg heq, ih hs (i + 1)]
        simp [heq]
        cases s.idxOf? chr with
        | none => rfl
        | some n => simp [Nat.add_comm]

/-- A loop stores the characters up to the first that is not taken. -/
lemma shortNameLoop_eq {name : List Byte} {taken : ℕ → Bool} {l : List Byte} {left i : ℕ}
    (hname : ∀ k < l.length, name[i + k]? = l[k]?) (hnul : 0#8 ∉ l)
    (htaken : ∀ k < l.length, taken (i + k) = true) (hleft : l.length ≤ left)
    (hend : l.length < left → ∃ c, name[i + l.length]? = some c
      ∧ (c = 0#8 ∨ taken (i + l.length) = false)) (d : ℕ) (shortName : Vector Byte 12) :
    shortNameLoop name taken left i d shortName = storeAll d (l.map toupper) shortName := by
  induction l generalizing left i d shortName with
  | nil =>
      cases left with
      | zero => rfl
      | succ left =>
          obtain ⟨c, hc, hstop⟩ := hend (Nat.succ_pos left)
          rw [List.length_nil, Nat.add_zero] at hc hstop
          rw [shortNameLoop, hc, Option.bind_eq_bind, Option.bind_some, if_neg]
          · rfl
          · rintro ⟨hne, htrue⟩
            rcases hstop with rfl | hfalse
            · exact hne rfl
            · rw [hfalse] at htrue
              exact absurd htrue (by decide)
  | cons c l ih =>
      rw [List.length_cons] at hleft
      obtain ⟨left, rfl⟩ := Nat.exists_eq_succ_of_ne_zero (n := left) (by omega)
      obtain ⟨hc, hnul⟩ := not_or.mp (mt List.mem_cons.mpr hnul)
      have hfirst := hname 0 (Nat.succ_pos _)
      have hgo := htaken 0 (Nat.succ_pos _)
      rw [Nat.add_zero] at hfirst hgo
      rw [shortNameLoop, hfirst, List.getElem?_cons_zero, Option.bind_eq_bind, Option.bind_some,
        if_pos ⟨Ne.symm hc, hgo⟩, List.map_cons, storeAll]
      congr 1
      funext shortName
      have hshift : ∀ k, i + 1 + k = i + (k + 1) := fun k => by omega
      refine ih (fun k hk => ?_) hnul (fun k hk => ?_) (by omega) (fun hlt => ?_) _ _
      · rw [hshift, hname (k + 1) (by rw [List.length_cons]; omega), List.getElem?_cons_succ]
      · rw [hshift]
        exact htaken (k + 1) (by rw [List.length_cons]; omega)
      · rw [hshift]
        exact hend (by rw [List.length_cons]; omega)

/-- The array that `memset` and the store of the NUL leave. -/
def blankShortName : Vector Byte 12 := (Vector.replicate 12 0x20#8).set 11 0#8

/-- Two texts stored in the blank array, at the places of the base and of the extension. -/
lemma storeAll_blankShortName {base ext : List Byte} (hbase : base.length ≤ 8)
    (hext : ext.length ≤ 3) : ∃ shortName,
      (storeAll 0 base blankShortName).bind (storeAll 8 ext) = some shortName ∧
      shortName.toList = base.rightpad 8 0x20#8 ++ ext.rightpad 3 0x20#8 ++ [0#8] := by
  have hblank : blankShortName.toList = [] ++ List.replicate base.length 0x20#8
      ++ (List.replicate (8 - base.length) 0x20#8 ++ List.replicate 3 0x20#8 ++ [0#8]) := by
    rw [List.nil_append, List.append_assoc, ← List.append_assoc, ← List.replicate_add,
      Nat.add_sub_cancel' hbase]
    rfl
  have hroom : ∀ l : List Byte, (List.replicate l.length 0x20#8).length = l.length := fun l =>
    List.length_replicate
  obtain ⟨v, hv, hvlist⟩ := storeAll_of_toList hblank (hroom base)
  have hthree : List.replicate 3 0x20#8
      = List.replicate ext.length 0x20#8 ++ List.replicate (3 - ext.length) 0x20#8 := by
    rw [← List.replicate_add, Nat.add_sub_cancel' hext]
  have hsplit : v.toList = base.rightpad 8 0x20#8 ++ List.replicate ext.length 0x20#8
      ++ (List.replicate (3 - ext.length) 0x20#8 ++ [0#8]) := by
    rw [hvlist, hthree, List.rightpad]
    simp only [List.nil_append, List.append_assoc]
  have hlen : (base.rightpad 8 0x20#8).length = 8 := by
    rw [List.length_rightpad]
    omega
  obtain ⟨w, hw, hwlist⟩ := storeAll_of_toList hsplit (hroom ext)
  rw [hlen] at hw
  refine ⟨w, ?_, ?_⟩
  · rw [show storeAll 0 base blankShortName = some v from hv, Option.bind_some, hw]
  · rw [hwlist, List.rightpad, List.rightpad]
    simp only [List.append_assoc]

/-- The first loop stores the base: at most eight characters in front of the place `ext`. -/
lemma shortNameLoop_base (name : CString) (ext d : ℕ) (shortName : Vector Byte 12) :
    shortNameLoop (name.chars ++ [0#8]) (fun i => decide (i < ext)) 8 0 d shortName =
      storeAll d ((name.chars.take (min 8 ext)).map toupper) shortName := by
  have hlen : (name.chars.take (min 8 ext)).length = min (min 8 ext) name.chars.length :=
    List.length_take
  refine shortNameLoop_eq (fun k hk => ?_) (fun h => name.noNul (List.mem_of_mem_take h))
    (fun k hk => ?_) (by omega) (fun hshort => ?_) d shortName
  · rw [Nat.zero_add, List.getElem?_append_left (by omega), List.getElem?_take_of_lt (by omega)]
  · rw [decide_eq_true_iff]
    omega
  · rw [Nat.zero_add]
    by_cases hend : (name.chars.take (min 8 ext)).length = name.chars.length
    · refine ⟨0#8, ?_, Or.inl rfl⟩
      rw [hend, List.getElem?_append_right le_rfl, Nat.sub_self]
      rfl
    · have hlt : (name.chars.take (min 8 ext)).length < name.chars.length := by omega
      refine ⟨_, (List.getElem?_append_left hlt).trans (List.getElem?_eq_getElem hlt), Or.inr ?_⟩
      rw [decide_eq_false_iff_not]
      omega

/-- The second loop stores the extension: at most three characters behind the place `ext`. -/
lemma shortNameLoop_ext (name : CString) {ext : ℕ} (hext : ext < name.chars.length) (d : ℕ)
    (shortName : Vector Byte 12) :
    shortNameLoop (name.chars ++ [0#8]) (fun _ => true) 3 (ext + 1) d shortName =
      storeAll d (((name.chars.drop (ext + 1)).take 3).map toupper) shortName := by
  have hlen : ((name.chars.drop (ext + 1)).take 3).length
      = min 3 (name.chars.length - (ext + 1)) := by
    rw [List.length_take, List.length_drop]
  refine shortNameLoop_eq (fun k hk => ?_)
    (fun h => name.noNul (List.mem_of_mem_drop (List.mem_of_mem_take h)))
    (fun _ _ => rfl) (by omega) (fun hshort => ⟨0#8, ?_, Or.inl rfl⟩) d shortName
  · rw [List.getElem?_append_left (by omega), List.getElem?_take_of_lt (by omega),
      List.getElem?_drop]
  · have hend : ext + 1 + ((name.chars.drop (ext + 1)).take 3).length = name.chars.length := by
      omega
    rw [hend, List.getElem?_append_right le_rfl, Nat.sub_self]
    rfl

/-- **`FAT_GetShortName`** reads no name behind its terminator, stays inside of the array, and
leaves the characters of `fatGetShortName` and a NUL. -/
theorem fatGetShortNameArray_eq (name : CString) : ∃ shortName,
    fatGetShortNameArray name = some shortName
      ∧ shortName.toList = fatGetShortName name.chars ++ [0#8] := by
  have hmemset : store (Vector.replicate 12 0x20#8) 11 0#8 = some blankShortName :=
    store_of_lt _ _ (by decide)
  have hdot : strchr 0x2E#8 (name.chars ++ [0#8]) 0 = some (name.chars.idxOf? 0x2E#8) := by
    rw [strchr_eq name.noNul 0, show (fun n : ℕ => n + 0) = id from rfl, Option.map_id, id_eq]
  have hbase : ((name.chars.take (min 8 ((name.chars.idxOf? 0x2E#8).getD 11))).map
      toupper).length ≤ 8 := by
    rw [List.length_map, List.length_take]
    omega
  simp only [fatGetShortNameArray, hmemset, hdot, Option.bind_eq_bind, Option.bind_some,
    shortNameLoop_base, fatGetShortName]
  generalize hext : (name.chars.idxOf? 0x2E#8).getD 11 = ext at hbase ⊢
  by_cases h11 : ext = 11
  · obtain ⟨v, hv, hlist⟩ := storeAll_blankShortName hbase
      (show ([] : List Byte).length ≤ 3 by decide)
    refine ⟨v, ?_, ?_⟩
    · simpa [h11, storeAll] using hv
    · simpa [h11] using hlist
  · have hlt : ext < name.chars.length := by
      cases hfind : name.chars.idxOf? 0x2E#8 with
      | none =>
          rw [hfind, Option.getD_none] at hext
          exact absurd hext.symm h11
      | some n =>
          rw [hfind, Option.getD_some] at hext
          rw [← hext]
          exact (List.idxOf?_eq_some_iff.mp hfind).1
    have hthree : (((name.chars.drop (ext + 1)).take 3).map toupper).length ≤ 3 := by simp
    obtain ⟨v, hv, hlist⟩ := storeAll_blankShortName hbase hthree
    refine ⟨v, ?_, ?_⟩
    · simp only [ne_eq, h11, not_false_eq_true, if_true, shortNameLoop_ext name hlt]
      exact hv
    · simpa only [ne_eq, h11, not_false_eq_true, if_true] using hlist

/-! ### Valid names -/

/-- A character of a valid name. -/
def IsNameChar (c : Byte) : Prop := c ≠ 0x2E#8 ∧ c ≠ 0x2F#8 ∧ c ≠ 0x20#8 ∧ c ≠ 0#8

/-- A valid name; without extension there is no dot either. -/
structure DosName where
  base : List Byte
  ext : List Byte
  base_length : 1 ≤ base.length ∧ base.length ≤ 8
  ext_length : ext.length ≤ 3
  base_chars : ∀ c ∈ base, IsNameChar c
  ext_chars : ∀ c ∈ ext, IsNameChar c

/-- What is written behind the base of a name. -/
def extText (ext : List Byte) : List Byte := if ext = [] then [] else 0x2E#8 :: ext

lemma zero_notMem_extText {ext : List Byte} (h : 0#8 ∉ ext) : 0#8 ∉ extText ext := by
  rw [extText]
  split_ifs
  · exact List.not_mem_nil
  · rw [List.mem_cons, not_or]
    exact ⟨by decide, h⟩

/-- The name as a string. -/
def DosName.text (name : DosName) : CString :=
  ⟨name.base ++ extText name.ext, by
    rw [List.mem_append, not_or]
    exact ⟨fun h => (name.base_chars _ h).2.2.2 rfl,
      zero_notMem_extText fun h => (name.ext_chars _ h).2.2.2 rfl⟩⟩

/-- The two are one character, or the two cases of one letter. -/
def SameLetter (c d : Byte) : Prop :=
  c = d ∨ (0x61#8 ≤ c ∧ c ≤ 0x7A#8 ∧ d = c - 0x20#8) ∨ (0x61#8 ≤ d ∧ d ≤ 0x7A#8 ∧ c = d - 0x20#8)

lemma toupper_eq_toupper_iff {c d : Byte} : toupper c = toupper d ↔ SameLetter c d := by
  rw [toupper, toupper, SameLetter]
  split_ifs <;> bv_omega

lemma toupper_eq_iff_of_not_letter {c d : Byte}
    (hd : d.toNat < 0x41) : toupper c = d ↔ c = d := by
  rw [toupper]
  split_ifs <;> bv_omega

lemma map_toupper_eq_iff {s t : List Byte} :
    s.map toupper = t.map toupper ↔ List.Forall₂ SameLetter s t := by
  rw [← List.forall₂_eq_eq_eq, List.forall₂_map_left_iff, List.forall₂_map_right_iff]
  simp only [toupper_eq_toupper_iff]

variable {a b : DosName}

lemma fatGetShortName_text (name : DosName) : fatGetShortName name.text.chars =
    (name.base.map toupper).rightpad 8 0x20#8 ++ (name.ext.map toupper).rightpad 3 0x20#8 := by
  have hbase : 0x2E#8 ∉ name.base := fun h => (name.base_chars _ h).1 rfl
  have hlen := name.base_length.2
  rw [fatGetShortName]
  by_cases hext : name.ext = []
  · have hchars : name.text.chars = name.base := by simp [DosName.text, extText, hext]
    have hnone : name.base.idxOf? 0x2E#8 = none := List.idxOf?_eq_none_iff.mpr hbase
    simp [hchars, hnone, hext, List.take_of_length_le hlen]
  · have hchars : name.text.chars = name.base ++ 0x2E#8 :: name.ext := by
      simp [DosName.text, extText, hext]
    have hsome : (name.base ++ 0x2E#8 :: name.ext).idxOf? 0x2E#8 = some name.base.length := by
      rw [List.idxOf?_eq_some_iff]
      refine ⟨by simp, by simp, fun j hj heq => hbase ?_⟩
      rw [List.getElem_append_left hj] at heq
      exact heq ▸ List.getElem_mem hj
    have hne : name.base.length ≠ 11 := by omega
    have hdrop : (name.base ++ 0x2E#8 :: name.ext).drop (name.base.length + 1) = name.ext := by simp
    rw [hchars, hsome]
    simp only [Option.getD_some, Nat.min_eq_right hlen, List.take_left', if_pos hne, hdrop,
      List.take_of_length_le name.ext_length]

/-- Upper-cased characters of a name are no spaces and no dots. -/
lemma notMem_map_toupper {l : List Byte} (hl : ∀ c ∈ l, IsNameChar c) :
    0x20#8 ∉ l.map toupper ∧ 0x2E#8 ∉ l.map toupper := by
  constructor
  · intro h
    obtain ⟨c, hc, heq⟩ := List.mem_map.mp h
    exact (hl c hc).2.2.1 ((toupper_eq_iff_of_not_letter (by decide)).mp heq)
  · intro h
    obtain ⟨c, hc, heq⟩ := List.mem_map.mp h
    exact (hl c hc).1 ((toupper_eq_iff_of_not_letter (by decide)).mp heq)

/-- Padding with a character that a text does not have can be taken off again. -/
lemma takeWhile_rightpad {l : List Byte} {x : Byte} (hx : x ∉ l) (n : ℕ) :
    (l.rightpad n x).takeWhile (fun c => decide (c ≠ x)) = l := by
  have hall : ∀ c ∈ l, decide (c ≠ x) = true := fun c hc =>
    decide_eq_true fun h => hx (h ▸ hc)
  rw [List.rightpad, List.takeWhile_append_of_pos hall, List.takeWhile_replicate]
  simp

/-! ### Equal names -/

lemma extText_map (ext : List Byte) : extText (ext.map toupper) = (extText ext).map toupper := by
  by_cases hext : ext = []
  · rw [hext]
    rfl
  · rw [extText, extText, if_neg hext, if_neg (by simpa using hext)]
    rfl

lemma extText_injective {ext ext' : List Byte} (h : extText ext = extText ext') : ext = ext' := by
  rw [extText, extText] at h
  split_ifs at h with hext hext' hext'
  · rw [hext, hext']
  · exact (List.cons.inj h).2

/-- The base of a name is what stands in front of the first dot. -/
lemma takeWhile_extText {base : List Byte} (hbase : 0x2E#8 ∉ base) (ext : List Byte) :
    (base ++ extText ext).takeWhile (fun c => decide (c ≠ 0x2E#8)) = base := by
  have hall : ∀ c ∈ base, decide (c ≠ 0x2E#8) = true := fun c hc =>
    decide_eq_true fun h => hbase (h ▸ hc)
  rw [List.takeWhile_append_of_pos hall, extText]
  split_ifs <;> simp

/-- The characters on the disk tell base and extension, up to the case of letters. -/
lemma fatGetShortName_eq_iff :
    fatGetShortName a.text.chars = fatGetShortName b.text.chars ↔
      a.base.map toupper = b.base.map toupper ∧ a.ext.map toupper = b.ext.map toupper := by
  rw [fatGetShortName_text, fatGetShortName_text]
  constructor
  · intro h
    have hlen : ((a.base.map toupper).rightpad 8 0x20#8).length
        = ((b.base.map toupper).rightpad 8 0x20#8).length := by
      have ha := a.base_length.2
      have hb := b.base_length.2
      rw [List.length_rightpad, List.length_rightpad, List.length_map, List.length_map]
      omega
    obtain ⟨hbase, hext⟩ := List.append_inj h hlen
    constructor
    · rw [← takeWhile_rightpad (notMem_map_toupper a.base_chars).1 8, hbase,
        takeWhile_rightpad (notMem_map_toupper b.base_chars).1 8]
    · rw [← takeWhile_rightpad (notMem_map_toupper a.ext_chars).1 3, hext,
        takeWhile_rightpad (notMem_map_toupper b.ext_chars).1 3]
  · rintro ⟨hbase, hext⟩
    rw [hbase, hext]

/-- So do the characters of the name. -/
lemma sameLetters_text_iff : List.Forall₂ SameLetter a.text.chars b.text.chars ↔
    a.base.map toupper = b.base.map toupper ∧ a.ext.map toupper = b.ext.map toupper := by
  have htext : ∀ name : DosName, name.text.chars.map toupper =
      name.base.map toupper ++ extText (name.ext.map toupper) := fun name => by
    rw [extText_map, ← List.map_append]
    rfl
  rw [← map_toupper_eq_iff, htext, htext]
  constructor
  · intro h
    have hbase : a.base.map toupper = b.base.map toupper := by
      rw [← takeWhile_extText (notMem_map_toupper a.base_chars).2 (a.ext.map toupper), h,
        takeWhile_extText (notMem_map_toupper b.base_chars).2]
    rw [hbase] at h
    exact ⟨hbase, extText_injective (List.append_cancel_left h)⟩
  · rintro ⟨hbase, hext⟩
    rw [hbase, hext]

/-- **Valid names on the disk**: `FAT_GetShortName` reads no valid name behind its terminator and
gives the upper-cased base padded to eight characters and the upper-cased extension padded to
three; two names get the same eleven characters if and only if they are equal up to the case of
their letters. -/
theorem shortName_dosName :
    (∀ name : DosName, ∃ shortName, fatGetShortNameArray name.text = some shortName
      ∧ shortName.toList = (name.base.map toupper).rightpad 8 0x20#8
        ++ (name.ext.map toupper).rightpad 3 0x20#8 ++ [0#8])
    ∧ ∀ a b : DosName, ∃ shortA shortB, fatGetShortNameArray a.text = some shortA
      ∧ fatGetShortNameArray b.text = some shortB
      ∧ (shortA.toList.take 11 = shortB.toList.take 11 ↔
        List.Forall₂ SameLetter a.text.chars b.text.chars) := by
  have hlen : ∀ name : DosName, (fatGetShortName name.text.chars).length = 11 := fun name => by
    have hbase := name.base_length.2
    have hext := name.ext_length
    rw [fatGetShortName_text, List.length_append, List.length_rightpad, List.length_rightpad,
      List.length_map, List.length_map]
    omega
  refine ⟨fun name => ?_, fun a b => ?_⟩
  · obtain ⟨v, hv, hlist⟩ := fatGetShortNameArray_eq name.text
    rw [fatGetShortName_text] at hlist
    exact ⟨v, hv, hlist⟩
  · obtain ⟨v, hv, hlist⟩ := fatGetShortNameArray_eq a.text
    obtain ⟨w, hw, hlist'⟩ := fatGetShortNameArray_eq b.text
    refine ⟨v, w, hv, hw, ?_⟩
    rw [hlist, hlist', List.take_left' (hlen a), List.take_left' (hlen b), fatGetShortName_eq_iff,
      sameLetters_text_iff]

end MiqOSoft
