import MiqOSoft.Boot.FatSteps

/-!
The names that `FAT_Open` looks up.

* `splitPath`: the components of a path, split at `/`.
* `residue`: the byte that earlier components, or the stack, leave in the buffer `name`.
* `fatOpen_names_iff`: the names passed to `FAT_FindFile` are the components of the path exactly
  if the last component is not looked up, or a `/` follows it, or the byte right behind it in
  the buffer is NUL already.
* `sampleDisk`: a FAT12 volume where `boot/a.b` is looked up as `a.bt`.
-/

namespace MiqOSoft

open Machine

/-! ### Components -/

/-- The components of a path, split at `/`.  A path that ends in `/` has no empty component
behind it. -/
def splitPath : List Byte → List (List Byte)
  | [] => []
  | c :: path =>
      if c = 0x2F#8 then [] :: splitPath path
      else
        match splitPath path with
        | [] => [[c]]
        | p :: ps => (c :: p) :: ps

example : splitPath (ascii "boot/kernel.elf") = [ascii "boot", ascii "kernel.elf"] := by decide

lemma splitPath_eq_cons {path : List Byte} (hpath : path ≠ []) :
    splitPath path = firstComponent path :: splitPath (restPath path) := by
  induction path with
  | nil => exact absurd rfl hpath
  | cons c path ih =>
      by_cases hc : c = 0x2F#8
      · simp [splitPath, firstComponent, restPath, hc]
      · have hfirst : firstComponent (c :: path) = c :: firstComponent path := by
          simp [firstComponent, hc]
        have hrest : restPath (c :: path) = restPath path := by
          rw [restPath, hfirst, List.length_cons, List.drop_succ_cons, restPath]
        rw [splitPath, if_neg hc, hfirst, hrest]
        cases path with
        | nil => rfl
        | cons d path => rw [ih (List.cons_ne_nil d path)]

lemma splitPath_eq_nil {path : List Byte} : splitPath path = [] ↔ path = [] := by
  constructor
  · intro h
    by_contra hne
    rw [splitPath_eq_cons hne] at h
    exact List.cons_ne_nil _ _ h
  · rintro rfl
    rfl

lemma length_restPath_lt {path : List Byte} (hpath : path ≠ []) :
    (restPath path).length < path.length := by
  have := List.length_pos_of_ne_nil hpath
  rw [restPath, List.length_drop]
  omega

/-- Without a `/` there is one component. -/
lemma firstComponent_of_notMem {path : List Byte} (h : 0x2F#8 ∉ path) :
    firstComponent path = path :=
  List.takeWhile_eq_self_iff.mpr fun c hc => by
    rw [decide_eq_true_eq]
    rintro rfl
    exact h hc

lemma restPath_of_notMem {path : List Byte} (h : 0x2F#8 ∉ path) : restPath path = [] := by
  rw [restPath, firstComponent_of_notMem h]
  exact List.drop_eq_nil_of_le (Nat.le_succ _)

/-- A path is its first component, a `/` and the rest. -/
lemma eq_append_of_mem {path : List Byte} (h : 0x2F#8 ∈ path) :
    path = firstComponent path ++ 0x2F#8 :: restPath path := by
  induction path with
  | nil => simp at h
  | cons c path ih =>
      by_cases hc : c = 0x2F#8
      · simp [firstComponent, restPath, hc]
      · have hmem : 0x2F#8 ∈ path := (List.mem_cons.mp h).resolve_left (Ne.symm hc)
        have hfirst : firstComponent (c :: path) = c :: firstComponent path := by
          simp [firstComponent, hc]
        rw [restPath, hfirst, List.length_cons, List.drop_succ_cons, ← restPath, List.cons_append,
          ← ih hmem]

/-- The path ends in `/`. -/
def EndsInSlash (path : List Byte) : Prop := path.getLast? = some 0x2F#8

instance (path : List Byte) : Decidable (EndsInSlash path) :=
  inferInstanceAs (Decidable (_ = _))

lemma not_endsInSlash {path : List Byte} (h : 0x2F#8 ∉ path) : ¬EndsInSlash path :=
  fun hend => h (List.mem_of_getLast? hend)

lemma endsInSlash_restPath {path : List Byte} (h : 0x2F#8 ∈ path) (hrest : restPath path ≠ []) :
    EndsInSlash (restPath path) ↔ EndsInSlash path := by
  obtain ⟨c, rest, hcons⟩ := List.exists_cons_of_ne_nil hrest
  rw [EndsInSlash, EndsInSlash]
  conv_rhs => rw [eq_append_of_mem h]
  rw [hcons, List.getLast?_append_of_ne_nil _ (List.cons_ne_nil _ _), List.getLast?_cons_cons]

lemma endsInSlash_of_restPath {path : List Byte} (h : 0x2F#8 ∈ path) (hrest : restPath path = []) :
    EndsInSlash path := by
  rw [EndsInSlash, eq_append_of_mem h, hrest]
  simp

/-! ### The buffer -/

/-- The character `b` that stands behind a name, if it is one. -/
def residueText (b : Byte) : List Byte := if b = 0#8 then [] else [b]

lemma getD_map_range {f : ℕ → Byte} {n k : ℕ} (hk : k < n) :
    ((List.range n).map f).getD k 0#8 = f k := by
  rw [List.getD_eq_getElem _ _ (by simpa using hk)]
  simp

lemma zero_notMem_firstComponent {path : List Byte} (h0 : 0#8 ∉ path) :
    0#8 ∉ firstComponent path :=
  fun h => h0 ((List.takeWhile_sublist _).mem h)

/-- A component that a `/` follows has its NUL right behind it. -/
lemma passedName_of_mem {path : List Byte} (name : ℕ → Byte) (h0 : 0#8 ∉ path)
    (h : 0x2F#8 ∈ path) : passedName name path = firstComponent path := by
  refine textOf_eq (zero_notMem_firstComponent h0) (by simp) fun k hk => ?_
  rw [getD_map_range (by omega), componentBuffer, if_pos h, nameBuffer]
  by_cases hlast : k = (firstComponent path).length
  · rw [hlast, Function.update_self, List.getD_eq_default _ _ le_rfl]
  · rw [Function.update_of_ne hlast, if_pos (by omega)]

/-- The last component is followed by the byte that stood behind it. -/
lemma passedName_of_notMem {path : List Byte} (name : ℕ → Byte) (h0 : 0#8 ∉ path)
    (h : 0x2F#8 ∉ path) :
    passedName name path = path ++ residueText (name path.length) := by
  have hfirst := firstComponent_of_notMem h
  have hbuf : ∀ k, componentBuffer name path k
      = if k = path.length + 1 then 0#8
        else if k < path.length then path.getD k 0#8 else name k := by
    intro k
    rw [componentBuffer, if_neg h, hfirst, nameBuffer, Function.update_apply]
  rw [passedName, hfirst, residueText]
  split_ifs with hres
  · rw [List.append_nil]
    refine textOf_eq h0 (by simp) fun k hk => ?_
    rw [getD_map_range (by omega), hbuf, if_neg (by omega)]
    by_cases hlast : k = path.length
    · rw [hlast, if_neg (lt_irrefl _), hres, List.getD_eq_default _ _ le_rfl]
    · rw [if_pos (by omega)]
  · refine textOf_eq (by simp [h0, Ne.symm hres]) (by simp) fun k hk => ?_
    rw [List.length_append, List.length_singleton] at hk
    rw [getD_map_range (by omega), hbuf]
    rcases lt_trichotomy k path.length with hlt | rfl | hgt
    · rw [if_neg (by omega), if_pos hlt, List.getD_append _ _ _ _ hlt]
    · rw [if_neg (by omega), if_neg (lt_irrefl _), List.getD_append_right _ _ _ _ le_rfl]
      simp
    · rw [if_pos (by omega), List.getD_eq_default _ _ (by simp; omega)]

/-- The names that are looked up for the components `cs` when all of them are found, from the
buffer `name` on. -/
def namesPassed (name : ℕ → Byte) (slash : Bool) : List (List Byte) → List (List Byte)
  | [] => []
  | c :: cs =>
      if cs = [] ∧ ¬slash then [c ++ residueText (name c.length)]
      else c :: namesPassed (nameBuffer name c c.length) slash cs

/-- The byte at `k` of the buffer `name` after the components `previous` were copied into it: it
is left by the last of them that reaches so far, else by the stack. -/
def residue (stack : ℕ → Byte) (previous : List (List Byte)) (k : ℕ) : Byte :=
  match previous.reverse.find? fun c => decide (k ≤ c.length) with
  | none => stack k
  | some c => c.getD k 0#8

lemma foldl_nameBuffer (stack : ℕ → Byte) (previous : List (List Byte)) (k : ℕ) :
    previous.foldl (fun name c => nameBuffer name c c.length) stack k
      = residue stack previous k := by
  induction previous using List.reverseRecOn with
  | nil => rfl
  | append_singleton previous c ih =>
      rw [List.foldl_concat, residue, List.reverse_concat, List.find?_cons]
      rcases lt_trichotomy k c.length with hlt | rfl | hgt
      · rw [nameBuffer, Function.update_of_ne hlt.ne, if_pos hlt]
        simp [hlt.le]
      · rw [nameBuffer, Function.update_self]
        simp
      · rw [nameBuffer, Function.update_of_ne hgt.ne', if_neg (by omega), ih, residue,
          decide_eq_false (by omega)]

/-- Only the last name can differ from its component. -/
lemma namesPassed_concat (name : ℕ → Byte) (slash : Bool) (previous : List (List Byte))
    (c : List Byte) :
    namesPassed name slash (previous ++ [c])
      = previous ++ [if slash then c else c ++ residueText (residue name previous c.length)] := by
  rw [← foldl_nameBuffer]
  induction previous generalizing name with
  | nil => cases slash <;> simp [namesPassed]
  | cons p previous ih =>
      rw [List.cons_append, namesPassed, if_neg (by simp), ih]
      rfl

/-! ### The names of a call -/

/-- The names that are looked up for a path when all of its components are found. -/
def pathNames (name : ℕ → Byte) (path : List Byte) : List (List Byte) :=
  namesPassed name (decide (EndsInSlash path)) (splitPath path)

lemma pathNames_eq_cons {path : List Byte} (name : ℕ → Byte) (h0 : 0#8 ∉ path)
    (hpath : path ≠ []) :
    pathNames name path
      = passedName name path :: pathNames (componentBuffer name path) (restPath path) := by
  rw [pathNames, splitPath_eq_cons hpath, namesPassed]
  by_cases h : 0x2F#8 ∈ path
  · have hbuf : componentBuffer name path
        = nameBuffer name (firstComponent path) (firstComponent path).length := by
      rw [componentBuffer, if_pos h]
    rw [passedName_of_mem name h0 h, hbuf, pathNames]
    by_cases hrest : restPath path = []
    · have hend := endsInSlash_of_restPath h hrest
      rw [if_neg (by simp [hend]), hrest]
      rfl
    · have hiff := endsInSlash_restPath h hrest
      rw [if_neg fun hnil => hrest (splitPath_eq_nil.mp hnil.1), decide_eq_decide.mpr hiff]
  · have hrest := restPath_of_notMem h
    have hend := not_endsInSlash h
    rw [passedName_of_notMem name h0 h, hrest, firstComponent_of_notMem h,
      if_pos ⟨rfl, by simp [hend]⟩]
    rfl

lemma zero_notMem_restPath {path : List Byte} (h0 : 0#8 ∉ path) : 0#8 ∉ restPath path :=
  fun h => h0 ((List.drop_sublist _ _).mem h)

/-- The search found an entry. -/
def FatSearch.Found (x : FatSearch) : Prop := ∃ entry, x.result = .found entry

/-- `names` are looked up in their order, and all of them if each search finds its entry. -/
def PassesExactly (searches : List FatSearch) (names : List (List Byte)) : Prop :=
  searches.map FatSearch.name <+: names ∧
    ((∀ x ∈ searches, x.Found) → searches.map FatSearch.name = names)

lemma passesExactly_nil : PassesExactly [] [] := ⟨List.nil_prefix, fun _ => rfl⟩

/-- A search that finds nothing is the last one. -/
lemma passesExactly_stop {x : FatSearch} {names : List (List Byte)} (hx : ¬x.Found) :
    PassesExactly [x] (x.name :: names) :=
  ⟨⟨names, rfl⟩, fun hall => absurd (hall x (List.mem_singleton_self x)) hx⟩

lemma passesExactly_cons {x : FatSearch} {searches : List FatSearch} {names : List (List Byte)}
    (h : PassesExactly searches names) : PassesExactly (x :: searches) (x.name :: names) := by
  refine ⟨?_, fun hall => ?_⟩
  · rw [List.map_cons, List.cons_prefix_cons]
    exact ⟨rfl, h.1⟩
  · rw [List.map_cons, h.2 fun y hy => hall y (List.mem_cons_of_mem x hy)]

/-- The loop of `FAT_Open` looks up `pathNames`. -/
lemma fatOpenLoop_passes (disk : Partition) (fuel : ℕ) {n : ℕ} {path : List Byte}
    (hn : path.length ≤ n) (h0 : 0#8 ∉ path) (name : ℕ → Byte) (current : Option FatHandle)
    (s : FatState) :
    PassesExactly (fatOpenLoop disk fuel n path name current s).2.1 (pathNames name path) := by
  induction n generalizing path name current s with
  | zero =>
      obtain rfl := List.eq_nil_of_length_eq_zero (Nat.le_zero.mp hn)
      exact passesExactly_nil
  | succ n ih =>
      by_cases hpath : path = []
      · rw [hpath, fatOpenLoop_nil]
        exact passesExactly_nil
      rw [pathNames_eq_cons name h0 hpath]
      cases hfind : fatFindFile disk fuel current (passedName name path) s with
      | mk result s₁ =>
      cases result with
      | found entry =>
          have hlt := length_restPath_lt hpath
          rw [fatOpenLoop_found hpath hfind]
          exact passesExactly_cons (ih (by omega) (zero_notMem_restPath h0) _ _ _)
      | absent =>
          rw [fatOpenLoop_absent hpath hfind]
          exact passesExactly_stop fun ⟨_, h⟩ => nomatch h
      | endless =>
          rw [fatOpenLoop_endless hpath hfind]
          exact passesExactly_stop fun ⟨_, h⟩ => nomatch h
      | nullHandle =>
          rw [fatOpenLoop_nullHandle hpath hfind]
          exact passesExactly_stop fun ⟨_, h⟩ => nomatch h

lemma zero_notMem_skipSlash {path : List Byte} (h0 : 0#8 ∉ path) : 0#8 ∉ skipSlash path := by
  rw [skipSlash]
  split_ifs
  · exact fun h => h0 (List.mem_of_mem_tail h)
  · exact h0

/-- The last component of the path is terminated: a `/` follows it, or the byte right behind it
in the buffer is NUL before it is copied. -/
def Terminated (stack : ℕ → Byte) (path : List Byte) : Prop :=
  ∀ previous last, splitPath path = previous ++ [last] →
    EndsInSlash path ∨ residue stack previous last.length = 0#8

lemma pathNames_eq_iff {stack : ℕ → Byte} {path : List Byte} :
    pathNames stack path = splitPath path ↔ Terminated stack path := by
  rcases List.eq_nil_or_concat' (splitPath path) with hnil | ⟨previous, last, hsplit⟩
  · simp [Terminated, pathNames, hnil, namesPassed]
  · have hterm : Terminated stack path ↔
        EndsInSlash path ∨ residue stack previous last.length = 0#8 := by
      refine ⟨fun h => h previous last hsplit, fun h previous' last' hsplit' => ?_⟩
      obtain ⟨rfl, hlast⟩ := List.append_inj' (hsplit.symm.trans hsplit') rfl
      obtain rfl := List.singleton_inj.mp hlast
      exact h
    rw [hterm, pathNames, hsplit, namesPassed_concat, List.append_cancel_left_eq,
      List.singleton_inj]
    by_cases hend : EndsInSlash path
    · simp [hend]
    · simp [hend, residueText]

/-- Fewer names than the path has components are components in any case. -/
lemma prefix_splitPath {stack : ℕ → Byte} {path : List Byte} {names : List (List Byte)}
    (h : names <+: pathNames stack path) (hlen : names.length < (splitPath path).length) :
    names <+: splitPath path := by
  rcases List.eq_nil_or_concat' (splitPath path) with hnil | ⟨previous, last, hsplit⟩
  · simp [hnil] at hlen
  · rw [hsplit, List.length_append, List.length_singleton] at hlen
    rw [pathNames, hsplit, namesPassed_concat] at h
    rw [hsplit]
    exact (List.prefix_of_prefix_length_le h (List.prefix_append _ _) (by omega)).trans
      (List.prefix_append _ _)

lemma length_pathNames (stack : ℕ → Byte) (path : List Byte) :
    (pathNames stack path).length = (splitPath path).length := by
  rcases List.eq_nil_or_concat' (splitPath path) with hnil | ⟨previous, last, hsplit⟩
  · simp [pathNames, hnil, namesPassed]
  · simp [pathNames, hsplit, namesPassed_concat]

/-- The components `cs` are found one after the other, each in the directory that the one before
it opens. -/
def Resolves (disk : Partition) (fuel : ℕ) :
    List (List Byte) → Option FatHandle → FatState → Prop
  | [], _, _ => True
  | c :: cs, current, s =>
      ∃ entry s₁, fatFindFile disk fuel current c s = (.found entry, s₁) ∧
        Resolves disk fuel cs (fatOpenEntry disk entry (fatCloseCurrent current s₁)).1
          (fatOpenEntry disk entry (fatCloseCurrent current s₁)).2

/-- The last component is looked up exactly if those before it are found. -/
lemma fatOpenLoop_length_iff (disk : Partition) (fuel : ℕ) {n : ℕ} {path : List Byte}
    (hn : path.length ≤ n) (h0 : 0#8 ∉ path) (name : ℕ → Byte) (current : Option FatHandle)
    (s : FatState) :
    (fatOpenLoop disk fuel n path name current s).2.1.length = (splitPath path).length ↔
      Resolves disk fuel (splitPath path).dropLast current s := by
  induction n generalizing path name current s with
  | zero =>
      obtain rfl := List.eq_nil_of_length_eq_zero (Nat.le_zero.mp hn)
      exact iff_of_true rfl trivial
  | succ n ih =>
      by_cases hpath : path = []
      · rw [hpath, fatOpenLoop_nil]
        exact iff_of_true rfl trivial
      rw [splitPath_eq_cons hpath]
      -- a search that finds nothing is the only one, so it has to be that of the last component
      have hstop : ∀ x : FatSearch, ∀ result s₁,
          fatFindFile disk fuel current (passedName name path) s = (result, s₁) →
          (∀ entry, result ≠ .found entry) →
          ([x].length = (firstComponent path :: splitPath (restPath path)).length ↔
            Resolves disk fuel (firstComponent path :: splitPath (restPath path)).dropLast
              current s) := by
        intro x result s₁ hfind hresult
        cases hrest : splitPath (restPath path) with
        | nil => exact iff_of_true rfl trivial
        | cons d ds =>
            have hmem : 0x2F#8 ∈ path := by
              by_contra h
              rw [restPath_of_notMem h] at hrest
              exact List.cons_ne_nil _ _ hrest.symm
            refine iff_of_false (by simp) ?_
            rintro ⟨entry, s₂, hfound, -⟩
            rw [passedName_of_mem name h0 hmem, hfound] at hfind
            exact hresult entry (Prod.mk.inj hfind).1.symm
      cases hfind : fatFindFile disk fuel current (passedName name path) s with
      | mk result s₁ =>
      cases result with
      | found entry =>
          have hlt := length_restPath_lt hpath
          have hih := ih (by omega) (zero_notMem_restPath h0) (componentBuffer name path)
            (fatOpenEntry disk entry (fatCloseCurrent current s₁)).1
            (fatOpenEntry disk entry (fatCloseCurrent current s₁)).2
          rw [fatOpenLoop_found hpath hfind, List.length_cons, List.length_cons, Nat.succ_inj, hih]
          cases hrest : splitPath (restPath path) with
          | nil => exact iff_of_true trivial trivial
          | cons d ds =>
              have hmem : 0x2F#8 ∈ path := by
                by_contra h
                rw [restPath_of_notMem h] at hrest
                exact List.cons_ne_nil _ _ hrest.symm
              rw [passedName_of_mem name h0 hmem] at hfind
              refine ⟨fun h => ⟨entry, s₁, hfind, h⟩, ?_⟩
              rintro ⟨entry', s₂, hfound, h⟩
              obtain ⟨hres, rfl⟩ := Prod.mk.inj (hfind.symm.trans hfound)
              obtain rfl := FindResult.found.inj hres
              exact h
      | absent =>
          rw [fatOpenLoop_absent hpath hfind]
          exact hstop _ _ _ hfind fun _ h => nomatch h
      | endless =>
          rw [fatOpenLoop_endless hpath hfind]
          exact hstop _ _ _ hfind fun _ h => nomatch h
      | nullHandle =>
          rw [fatOpenLoop_nullHandle hpath hfind]
          exact hstop _ _ _ hfind fun _ h => nomatch h

/-- **The names that `FAT_Open` passes to `FAT_FindFile`** are the components of the path in
their order, exactly if the last component is terminated or one before it is not found. -/
theorem fatOpen_names_iff (disk : Partition) (fuel : ℕ) (stack : ℕ → Byte) (path : CString)
    (s : FatState) :
    PassesExactly (fatOpen disk fuel stack path s).2.1 (splitPath (skipSlash path.chars)) ↔
      (Resolves disk fuel (splitPath (skipSlash path.chars)).dropLast (some .root) s →
        Terminated stack (skipSlash path.chars)) := by
  have h0 := zero_notMem_skipSlash path.noNul
  have hpasses : PassesExactly (fatOpen disk fuel stack path s).2.1
      (pathNames stack (skipSlash path.chars)) :=
    fatOpenLoop_passes disk fuel le_rfl h0 stack (some .root) s
  have hreach : (fatOpen disk fuel stack path s).2.1.length
      = (splitPath (skipSlash path.chars)).length ↔
        Resolves disk fuel (splitPath (skipSlash path.chars)).dropLast (some .root) s :=
    fatOpenLoop_length_iff disk fuel le_rfl h0 stack (some .root) s
  generalize (fatOpen disk fuel stack path s).2.1 = searches at *
  generalize skipSlash path.chars = p at *
  have hlength := length_pathNames stack p
  rw [← hreach, ← List.length_map FatSearch.name]
  constructor
  · intro hexact hlen
    have hcomponents := hexact.1.eq_of_length hlen
    have hnames := hpasses.1.eq_of_length (hlen.trans hlength.symm)
    exact pathNames_eq_iff.mp (hnames.symm.trans hcomponents)
  · intro hterm
    by_cases hlen : (searches.map FatSearch.name).length = (splitPath p).length
    · rwa [← pathNames_eq_iff.mpr (hterm hlen)]
    · have hlt : (searches.map FatSearch.name).length < (splitPath p).length := by
        have := hpasses.1.length_le
        omega
      refine ⟨prefix_splitPath hpasses.1 hlt, fun hall => ?_⟩
      exact absurd ((congrArg List.length (hpasses.2 hall)).trans hlength) hlen

/-! ### A name with a character too many -/

/-- A FAT12 volume with a directory `BOOT`: one reserved sector, one FAT of one sector, a root
directory of one sector, and clusters of one sector from sector 3 on. -/
def sampleDisk : Partition :=
  Partition.image 64 [
    (0, 11, [0x00#8, 0x02#8, 0x01#8, 0x01#8, 0x00#8, 0x01#8, 0x10#8, 0x00#8, 0x40#8, 0x00#8,
      0xF0#8, 0x01#8, 0x00#8]),
    (2, 0, ascii "BOOT       " ++ [FAT_ATTRIBUTE_DIRECTORY]),
    (2, 26, [0x02#8, 0x00#8])]

/-- The state after `FAT_Initialize`. -/
def sampleState : FatState := (fatInitialize sampleDisk blankState).2

/-- A path whose first component is longer than its last. -/
def samplePath : CString := ⟨ascii "boot/a.b", by decide⟩

/-- **The last component is looked up with a character of an earlier one**: in the path
`boot/a.b` the `t` of `boot` stands right behind `a.b`. -/
theorem fatOpen_passes_residue :
    (fatInitialize sampleDisk blankState).1 = some true ∧
      (fatOpen sampleDisk 20 (fun _ => 0#8) samplePath sampleState).2.1.map FatSearch.name
        = [ascii "boot", ascii "a.bt"] ∧
      ¬PassesExactly (fatOpen sampleDisk 20 (fun _ => 0#8) samplePath sampleState).2.1
        (splitPath (skipSlash samplePath.chars)) := by
  have hnames : (fatOpen sampleDisk 20 (fun _ => 0#8) samplePath sampleState).2.1.map
      FatSearch.name = [ascii "boot", ascii "a.bt"] := by decide +kernel
  refine ⟨by decide +kernel, hnames, fun hexact => ?_⟩
  have hprefix := hexact.1
  rw [hnames] at hprefix
  exact absurd hprefix (by decide)

end MiqOSoft
