import MiqOSoft.Shell.RamFsSteps

/-!
The path of the current directory: `ramfs_get_current_path` of `shell_commands.c`.

* `pathLoop`: the loop that builds the path backwards in `temp_path`, from the current directory
  up to the root.  Indices are integers: the loop is left with a negative one when the path does
  not fit.
* `PathOf`: the path of a directory, as it should be.
* `pathLoop_eq`: a path of at most 255 characters ends at index 255, a longer one begins outside
  of `temp_path`.
* `strncpyStored_eq`: how many bytes `shell_strncpy` stores; `strncpyExact_iff` says when these are
  as many as it should, and `not_pathDelivered` follows.
-/

namespace MiqOSoft

open Machine

/-! ### The function -/

/-- How many bytes `shell_strncpy` stores, from the first one of the destination on. -/
def strncpyStored (dest : ℕ → Byte) (src : CString) (n : ℕ) : ℕ :=
  let r := strncpyCopy src n 0 dest
  r.2.1 + r.2.2

/-- `shell_memcpy` of `n` characters to place `d` of an array on the stack. -/
def shellMemcpy (dest : ℤ → Byte) (d : ℤ) (src : ℕ → Byte) : ℕ → ℤ → Byte
  | 0 => dest
  | n + 1 => Function.update (shellMemcpy dest d src n) (d + n) (src n)

/-- The table has an entry, so that its places are written as numbers. -/
local instance neZero_maxFiles : NeZero 64 := ⟨by decide⟩

/-- The loop of `ramfs_get_current_path`: `temp_path` and `pos` when it is left, or `none` if it
takes more turns than given. -/
def pathLoop (fs : RamFs) : ℕ → (ℤ → Byte) → ℤ → Fin 64 → Option ((ℤ → Byte) × ℤ)
  | 0, _, _, _ => none
  | turns + 1, tempPath, pos, dirIndex =>
      if dirIndex = 0 then some (tempPath, pos)
      else
        let dir := fs.files dirIndex
        let nameLen := dir.name.text.length
        let pos := pos - nameLen
        if pos < 0 then some (tempPath, pos)
        else
          let tempPath := shellMemcpy tempPath pos dir.name.byte nameLen
          let pos := pos - 1
          if pos < 0 then some (tempPath, pos)
          else pathLoop fs turns (Function.update tempPath pos 47#8) pos dir.parentIndex

/-- The string at an index of `temp_path`, whose last character is NUL. -/
def stringFrom (tempPath : ℤ → Byte) (pos : ℤ) : CString :=
  ⟨textOf ((List.range (256 - pos).toNat).map fun k : ℕ => tempPath (pos + k)),
    zero_notMem_textOf _⟩

/-- What a call of `ramfs_get_current_path` leaves: the index of `temp_path` that the path begins
at, if it was built there, the buffer, and how many bytes of it were stored. -/
structure PathCall where
  index : Option ℤ
  buffer : ℕ → Byte
  stored : ℕ

/-- `ramfs_get_current_path`, for the stack and the buffer as they were before. -/
def ramfsGetCurrentPath (fs : RamFs) (stack : ℤ → Byte) (buffer : ℕ → Byte) (bufferSize : ℕ) :
    Option PathCall :=
  if fs.currentDir = 0 then
    some ⟨none, shellStrncpy buffer slash bufferSize, strncpyStored buffer slash bufferSize⟩
  else do
    let (tempPath, pos) ← pathLoop fs 257 (Function.update stack 255 0#8) 255 fs.currentDir
    let path := stringFrom tempPath pos
    some ⟨some pos, shellStrncpy buffer path bufferSize, strncpyStored buffer path bufferSize⟩

/-! ### What is stored -/

lemma strncpyCopy_stored (src : CString) (n d : ℕ) (hd : d ≤ src.chars.length) (dest : ℕ → Byte) :
    (strncpyCopy src n d dest).2.1 + (strncpyCopy src n d dest).2.2 =
      if src.chars.length < d + n then d + n + 1 else d + n := by
  induction n generalizing d dest with
  | zero => rw [strncpyCopy, if_neg (by omega)]
  | succ n ih =>
      by_cases hz : src.byte d = 0#8
      · have hlen : src.chars.length = d := by
          by_contra hne
          exact src.byte_ne_zero (by omega) hz
        simp only [strncpyCopy, hz, ↓reduceIte]
        rw [if_pos (by omega)]
        omega
      · have hlt : d < src.chars.length := by
          by_contra hge
          exact hz (src.byte_of_length_le (by omega))
        simp only [strncpyCopy, hz, ↓reduceIte]
        rw [ih (d + 1) hlt]
        split_ifs <;> omega

/-- **The bytes stored** by `shell_strncpy`: a string that ends in front of the bound takes one
byte more than the bound. -/
theorem strncpyStored_eq (dest : ℕ → Byte) (src : CString) (n : ℕ) :
    strncpyStored dest src n = if src.chars.length < n then n + 1 else n := by
  have hstored := strncpyCopy_stored src n 0 (Nat.zero_le _) dest
  rwa [Nat.zero_add] at hstored

/-- What a copy of at most `n` characters should do: it stores `n` bytes, the characters of the
source and NULs behind them, and leaves the others alone. -/
structure StrncpyExact (dest : ℕ → Byte) (src : CString) (n : ℕ) : Prop where
  stored : strncpyStored dest src n = n
  copied : ∀ k < min src.chars.length n, shellStrncpy dest src n k = src.byte k
  padded : ∀ k, src.chars.length ≤ k → k < n → shellStrncpy dest src n k = 0#8
  untouched : ∀ k, n ≤ k → shellStrncpy dest src n k = dest k

/-- **When `shell_strncpy` keeps its bound**: exactly if the source does not end in front of it. -/
theorem strncpyExact_iff (dest : ℕ → Byte) (src : CString) (n : ℕ) :
    StrncpyExact dest src n ↔ n ≤ src.chars.length := by
  constructor
  · intro h
    have hstored := h.stored
    rw [strncpyStored_eq] at hstored
    by_contra hshort
    rw [if_pos (by omega)] at hstored
    omega
  · intro hlong
    refine ⟨?_, fun k hk => ?_, fun k hle hk => ?_, fun k hk => ?_⟩
    · rw [strncpyStored_eq, if_neg (by omega)]
    · rw [shellStrncpy_apply, if_pos (Or.inl (by omega))]
    · omega
    · rw [shellStrncpy_apply, if_neg (by omega)]

/-- A slash copied with a bound of 64: the byte behind the bound becomes NUL. -/
theorem strncpy_stores_behind_bound :
    shellStrncpy (fun _ => 255#8) slash 64 64 = 0#8 ∧ strncpyStored (fun _ => 255#8) slash 64 = 65
      ∧ ¬StrncpyExact (fun _ => 255#8) slash 64 := by
  refine ⟨by decide, by decide, fun h => ?_⟩
  exact absurd h.stored (by decide)

/-! ### The path -/

/-- The path of a directory: a slash and the name for every directory from the root down to it. -/
inductive PathOf (fs : RamFs) : Fin 64 → List Byte → Prop
  | root : PathOf fs 0 []
  | child {dir : Fin 64} {path : List Byte} (hdir : dir ≠ 0)
      (hparent : PathOf fs (fs.files dir).parentIndex path) :
      PathOf fs dir (path ++ 47#8 :: (fs.files dir).name.text)

variable {fs : RamFs} {dir : Fin 64} {path rest : List Byte} {temp : ℤ → Byte} {pos : ℤ}

/-- Every turn takes `pos` down. -/
lemma pathLoop_isSome (fs : RamFs) {turns : ℕ} {pos : ℤ} (hpos : pos < turns) (hturns : 0 < turns)
    (temp : ℤ → Byte) (dir : Fin 64) : (pathLoop fs turns temp pos dir).isSome := by
  induction turns generalizing temp pos dir with
  | zero => exact absurd hturns (lt_irrefl 0)
  | succ turns ih =>
      simp only [pathLoop]
      split_ifs
      · rfl
      · rfl
      · rfl
      · exact ih (by omega) (by omega) _ _

lemma shellMemcpy_apply (dest : ℤ → Byte) (d : ℤ) (src : ℕ → Byte) (n : ℕ) (k : ℤ) :
    shellMemcpy dest d src n k = if d ≤ k ∧ k < d + n then src (k - d).toNat else dest k := by
  induction n with
  | zero => rw [shellMemcpy, if_neg (by omega)]
  | succ n ih =>
      rw [shellMemcpy, Function.update_apply, ih]
      by_cases hk : k = d + n
      · rw [if_pos hk, if_pos (by omega)]
        congr 1
        omega
      · rw [if_neg hk]
        exact if_congr (by omega) rfl rfl

/-- `temp_path` holds a text from an index to its end. -/
structure HoldsEnd (temp : ℤ → Byte) (pos : ℤ) (text : List Byte) : Prop where
  fits : pos + text.length = 255
  chars : ∀ k ≤ text.length, temp (pos + k) = text.getD k 0#8

/-- A name is put in front of the text, and a slash in front of the name. -/
lemma HoldsEnd.cons (h : HoldsEnd temp pos rest) (name : FileName) :
    HoldsEnd (Function.update (shellMemcpy temp (pos - name.text.length) name.byte
        name.text.length) (pos - name.text.length - 1) 47#8)
      (pos - name.text.length - 1) (47#8 :: name.text ++ rest) where
  fits := by
    have hfits := h.fits
    rw [List.length_append, List.length_cons]
    push_cast
    omega
  chars := by
    intro k hk
    rw [List.length_append, List.length_cons] at hk
    rw [Function.update_apply, shellMemcpy_apply]
    rcases Nat.eq_zero_or_pos k with rfl | hpos
    · rw [if_pos (by push_cast; omega)]
      rfl
    · obtain ⟨j, rfl⟩ : ∃ j, k = j + 1 := ⟨k - 1, by omega⟩
      rw [if_neg (by push_cast; omega), List.cons_append, List.getD_cons_succ]
      by_cases hj : j < name.text.length
      · have hplace : (pos - name.text.length - 1 + ((j + 1 : ℕ) : ℤ) -
            (pos - name.text.length)).toNat = j := by
          push_cast
          omega
        rw [if_pos (by push_cast; omega), hplace, name.byte_eq hj.le,
          List.getD_append _ _ _ _ hj]
      · have hplace : pos - name.text.length - 1 + ((j + 1 : ℕ) : ℤ) =
            pos + ((j - name.text.length : ℕ) : ℤ) := by
          omega
        rw [if_neg (by push_cast; omega), hplace, h.chars _ (by omega),
          List.getD_append_right _ _ _ _ (Nat.not_lt.mp hj)]

/-- **The loop** puts the path in front of what `temp_path` holds, if there is room for it. -/
theorem pathLoop_eq (hpath : PathOf fs dir path) {turns : ℕ} (hpos : 0 ≤ pos)
    (hturns : pos < turns) (h : HoldsEnd temp pos rest) :
    ∃ temp' pos', pathLoop fs turns temp pos dir = some (temp', pos') ∧
      (path.length ≤ pos → pos' = pos - path.length ∧ HoldsEnd temp' pos' (path ++ rest)) ∧
      (pos < path.length → pos' < 0) := by
  induction hpath generalizing temp pos rest turns with
  | root =>
      obtain ⟨turns, rfl⟩ : ∃ k, turns = k + 1 := ⟨turns - 1, by omega⟩
      refine ⟨temp, pos, by rw [pathLoop, if_pos rfl], fun _ => ?_, fun hlt => ?_⟩
      · rw [List.length_nil, Int.natCast_zero, Int.sub_zero, List.nil_append]
        exact ⟨rfl, h⟩
      · rw [List.length_nil] at hlt
        omega
  | @child dir path hdir hparent ih =>
      obtain ⟨turns, rfl⟩ : ∃ k, turns = k + 1 := ⟨turns - 1, by omega⟩
      have hlen : ((path ++ 47#8 :: (fs.files dir).name.text).length : ℤ) =
          path.length + (fs.files dir).name.text.length + 1 := by
        rw [List.length_append, List.length_cons]
        push_cast
        omega
      simp only [pathLoop, if_neg hdir]
      by_cases hname : pos - (fs.files dir).name.text.length < 0
      · rw [if_pos hname]
        exact ⟨_, _, rfl, fun hle => absurd hle (by omega), fun _ => hname⟩
      by_cases hslash : pos - (fs.files dir).name.text.length - 1 < 0
      · rw [if_neg hname, if_pos hslash]
        exact ⟨_, _, rfl, fun hle => absurd hle (by omega), fun _ => hslash⟩
      rw [if_neg hname, if_neg hslash]
      have hnext : pos - (fs.files dir).name.text.length - 1 < (turns : ℤ) := by
        push_cast at hturns
        omega
      obtain ⟨temp', pos', hloop, hfits, hlong⟩ :=
        ih (Int.not_lt.mp hslash) hnext (h.cons (fs.files dir).name)
      refine ⟨temp', pos', hloop, fun hle => ?_, fun hlt => hlong (by omega)⟩
      obtain ⟨hpos', hends⟩ := hfits (by omega)
      refine ⟨by omega, ?_⟩
      rwa [List.append_assoc]

/-- A text that ends at index 255 is the string found there. -/
lemma HoldsEnd.chars_stringFrom (h : HoldsEnd temp pos rest) (hnul : 0#8 ∉ rest) :
    (stringFrom temp pos).chars = rest := by
  have hfits := h.fits
  refine textOf_eq hnul ?_ fun k hk => ?_
  · rw [List.length_map, List.length_range]
    omega
  · rw [List.getD_eq_getElem _ _ (by simp; omega), List.getElem_map, List.getElem_range]
    exact h.chars k hk

lemma PathOf.noNul (h : PathOf fs dir path) : 0#8 ∉ path := by
  induction h with
  | root => exact List.not_mem_nil
  | child _ _ ih =>
      simp only [List.mem_append, List.mem_cons, not_or]
      exact ⟨ih, by decide, zero_notMem_textOf _⟩

/-- **The path delivered**: the function takes a path that fits into `temp_path` to the caller's
buffer as a string, and begins outside of `temp_path` with a longer one. -/
theorem ramfsGetCurrentPath_eq (hpath : PathOf fs fs.currentDir path) (hdir : fs.currentDir ≠ 0)
    (stack : ℤ → Byte) (buffer : ℕ → Byte) (bufferSize : ℕ) :
    ∃ pos src, ramfsGetCurrentPath fs stack buffer bufferSize =
        some ⟨some pos, shellStrncpy buffer src bufferSize, strncpyStored buffer src bufferSize⟩ ∧
      (path.length ≤ 255 → pos = 255 - path.length ∧ src.chars = path) ∧
      (255 < path.length → pos < 0) := by
  have hends : HoldsEnd (Function.update stack 255 0#8) 255 [] := by
    refine ⟨rfl, fun k hk => ?_⟩
    obtain rfl : k = 0 := Nat.le_zero.mp hk
    rfl
  have hturns : (255 : ℤ) < (257 : ℕ) := by decide
  obtain ⟨temp, pos, hloop, hfits, hlong⟩ := pathLoop_eq hpath (by decide) hturns hends
  refine ⟨pos, stringFrom temp pos, ?_, fun hle => ?_, fun hlt => hlong (by omega)⟩
  · rw [ramfsGetCurrentPath, if_neg hdir, hloop]
    rfl
  · obtain ⟨hpos, htext⟩ := hfits (by omega)
    rw [List.append_nil] at htext
    exact ⟨hpos, htext.chars_stringFrom hpath.noNul⟩

/-! ### What the caller gets -/

/-- What the function should do: `temp_path` is indexed inside only, no byte behind the buffer is
stored, and the buffer holds the path as a string, cut to fit. -/
structure PathDelivered (fs : RamFs) (bufferSize : ℕ) (r : PathCall) : Prop where
  indexed : ∀ i ∈ r.index, 0 ≤ i ∧ i < 256
  within : r.stored ≤ bufferSize
  path : ∃ path, PathOf fs fs.currentDir path ∧
    textOf ((List.range bufferSize).map r.buffer) =
      (if fs.currentDir = 0 then [47#8] else path).take (bufferSize - 1)

/-- A copied string either takes a byte behind the buffer, or leaves no terminator in it. -/
lemma not_pathDelivered_of_copy {index : Option ℤ} {buffer : ℕ → Byte} {bufferSize : ℕ}
    (hsize : 2 ≤ bufferSize) (src : CString) :
    ¬PathDelivered fs bufferSize
      ⟨index, shellStrncpy buffer src bufferSize, strncpyStored buffer src bufferSize⟩ := by
  rintro ⟨-, hwithin, path, -, htext⟩
  rw [strncpyStored_eq] at hwithin
  by_cases hshort : src.chars.length < bufferSize
  · rw [if_pos hshort] at hwithin
    exact absurd hwithin (Nat.not_succ_le_self _)
  · have hfull : textOf ((List.range bufferSize).map (shellStrncpy buffer src bufferSize)) =
        (List.range bufferSize).map (shellStrncpy buffer src bufferSize) := by
      refine List.takeWhile_eq_self_iff.mpr fun c hc => ?_
      obtain ⟨k, hk, rfl⟩ := List.mem_map.mp hc
      have hlt : k < bufferSize := List.mem_range.mp hk
      rw [shellStrncpy_apply, if_pos (Or.inl hlt), decide_eq_true_iff]
      exact src.byte_ne_zero (hlt.trans_le (Nat.not_lt.mp hshort))
    have hlen := congrArg List.length htext
    rw [hfull, List.length_map, List.length_range, List.length_take] at hlen
    omega

/-- **No buffer is filled as it should be**: the function returns, whatever the table holds, but in
no state and for no buffer of two bytes or more does it do what it should. -/
theorem not_pathDelivered (fs : RamFs) (stack : ℤ → Byte) (buffer : ℕ → Byte) (bufferSize : ℕ)
    (hsize : 2 ≤ bufferSize) :
    ∃ r, ramfsGetCurrentPath fs stack buffer bufferSize = some r ∧
      ¬PathDelivered fs bufferSize r := by
  by_cases hroot : fs.currentDir = 0
  · exact ⟨_, if_pos hroot, not_pathDelivered_of_copy hsize slash⟩
  · have hturns : (255 : ℤ) < (257 : ℕ) := by decide
    obtain ⟨⟨temp, pos⟩, hloop⟩ := Option.isSome_iff_exists.mp
      (pathLoop_isSome fs hturns (by decide) (Function.update stack 255 0#8) fs.currentDir)
    have hcall : ramfsGetCurrentPath fs stack buffer bufferSize =
        some ⟨some pos, shellStrncpy buffer (stringFrom temp pos) bufferSize,
          strncpyStored buffer (stringFrom temp pos) bufferSize⟩ := by
      rw [ramfsGetCurrentPath, if_neg hroot, hloop]
      rfl
    exact ⟨_, hcall, not_pathDelivered_of_copy hsize (stringFrom temp pos)⟩

/-- In the first state, for the buffer of 64 bytes that `cmd_pwd` hands over. -/
theorem not_pathDelivered_pwd : 2 ≤ 64 ∧
    ∃ r, ramfsGetCurrentPath RamFs.initial (fun _ => 0#8) (fun _ => 0#8) 64 = some r ∧
      ¬PathDelivered RamFs.initial 64 r :=
  ⟨by decide, not_pathDelivered RamFs.initial _ _ 64 (by decide)⟩

/-- At the root, 65 bytes of a buffer of 64 are stored. -/
theorem path_stored_behind_buffer :
    ∃ r, ramfsGetCurrentPath RamFs.initial (fun _ => 0#8) (fun _ => 255#8) 64 = some r ∧
      r.stored = 65 ∧ r.buffer 64 = 0#8 ∧ ¬PathDelivered RamFs.initial 64 r := by
  refine ⟨_, if_pos rfl, by decide, by decide, ?_⟩
  rintro ⟨-, hwithin, -⟩
  exact absurd hwithin (by decide)

end MiqOSoft
