import MiqOSoft.Kernel.Printf

/-!
Formats with flags, a width or a precision, as in `%08X` and `%.50s`, given to `vfprintf`.

* `FormatSpec`: a conversion as it may be written; `FormatItem`: a piece of such a format.
* `FormatSpec.Wants`, `FormatSpec.argText`: the argument of a conversion, and its text.
* `parses_items`: how `vfprintf` reads such a format.  What stands in front of the length ends the
  conversion, and the rest of it is taken for literal text.
* `length_renderAll`: how many arguments the pieces of a format take.
* `prints_its_own_iff`: every conversion prints the argument it stands for exactly if none has
  flags, a width or a precision.
-/

namespace MiqOSoft

open Machine

/-! ### Formats as they are written -/

/-- The kind of argument that stands for a conversion: 64 bits for a number with `ll`. -/
def Conversion.Wants (len : FormatLength) : Conversion → Arg → Prop
  | .char, .word _ => True
  | .string, .text _ => True
  | .signed _, .word _ => len ≠ .longLong
  | .signed _, .dword _ => len = .longLong
  | .unsigned _, .word _ => len ≠ .longLong
  | .unsigned _, .dword _ => len = .longLong
  | _, _ => False

/-- The text of an argument: a character, a string, or a number in the radix of the conversion. -/
def Conversion.argText : Conversion → Arg → List Byte
  | .char, .word w => [w.setWidth 8]
  | .string, .text t => t.chars
  | .signed b, .word w => signedText b w.toInt
  | .signed b, .dword d => signedText b d.toInt
  | .unsigned b, .word w => digitText b w.toNat
  | .unsigned b, .dword d => digitText b d.toNat
  | _, _ => []

/-- The digits of flags, widths and precisions. -/
def decimalDigits : List Byte := ascii "0123456789"

/-- A conversion that takes an argument: `%`, flags and width, perhaps a point and a precision, a
length, and a character. -/
structure FormatSpec where
  flags : List Byte
  precision : Option (List Byte)
  len : FormatLength
  char : Byte
  conversion : Conversion
  flags_digits : ∀ c ∈ flags, c ∈ decimalDigits
  precision_digits : ∀ ds ∈ precision, ∀ c ∈ ds, c ∈ decimalDigits
  known : conversion? char = some conversion
  takes : conversion ≠ .percent

namespace FormatSpec

/-- The part in front of the length. -/
def ahead (s : FormatSpec) : List Byte := s.flags ++ s.precision.elim [] (ch '.' :: ·)

/-- The part from the length on. -/
def behind (s : FormatSpec) : List Byte := s.len.text ++ [s.char]

/-- The conversion as it is written. -/
def text (s : FormatSpec) : List Byte := ch '%' :: (s.ahead ++ s.behind)

/-- Nothing stands in front of the length. -/
def Plain (s : FormatSpec) : Prop := s.flags = [] ∧ s.precision = none

/-- The kind of argument that stands for the conversion. -/
def Wants (s : FormatSpec) (a : Arg) : Prop := s.conversion.Wants s.len a

/-- The text of the argument. -/
def argText (s : FormatSpec) (a : Arg) : List Byte := s.conversion.argText a

end FormatSpec

/-- A piece of a format: a character that is printed as it is, or a conversion. -/
inductive FormatItem
  | literal (c : Byte)
  | spec (s : FormatSpec)

namespace FormatItem

/-- The piece as it is written, where `%` is written twice. -/
def text : FormatItem → List Byte
  | literal c => if c = ch '%' then [ch '%', ch '%'] else [c]
  | spec s => s.text

/-- The conversion of the piece. -/
def spec? : FormatItem → Option FormatSpec
  | literal _ => none
  | spec s => some s

end FormatItem

/-- The conversions of a format, in order. -/
def formatSpecs (items : List FormatItem) : List FormatSpec := items.filterMap FormatItem.spec?

/-- What a format stands for: the `k`-th conversion is replaced by the text of the `k`-th argument,
out of which its flags, its width and its precision have made what `fill` says. -/
def itemsText (fill : List Byte → Option (List Byte) → List Byte → List Byte) :
    List FormatItem → List Arg → List Byte
  | .literal c :: items, args => c :: itemsText fill items args
  | .spec s :: items, a :: args =>
      fill s.flags s.precision (s.argText a) ++ itemsText fill items args
  | _, _ => []

/-! ### How `vfprintf` reads them -/

namespace FormatSpec

variable (s : FormatSpec)

/-- The pieces that a conversion is read as. -/
def segments : List Segment :=
  match s.ahead with
  | [] => [.conversion s.len s.char]
  | d :: ds => .conversion .default d :: (ds ++ s.behind).map .literal

lemma ahead_eq_nil_iff : s.ahead = [] ↔ s.Plain := by
  rw [ahead, Plain, List.append_eq_nil_iff]
  cases s.precision <;> simp

/-- No character in front of the length starts, ends or lengthens a conversion. -/
lemma of_mem_ahead {c : Byte} (hc : c ∈ s.ahead) :
    c ≠ ch '%' ∧ FormatLength.default.EndsAt c ∧ conversion? c = none := by
  have hdigits : ∀ c ∈ decimalDigits,
      c ≠ ch '%' ∧ (c ≠ ch 'h' ∧ c ≠ ch 'l') ∧ conversion? c = none := by decide
  rcases List.mem_append.mp hc with hflags | hprecision
  · exact hdigits c (s.flags_digits c hflags)
  · cases hp : s.precision with
    | none =>
        rw [hp] at hprecision
        exact absurd hprecision List.not_mem_nil
    | some ds =>
        rw [hp, Option.elim_some] at hprecision
        rcases List.mem_cons.mp hprecision with rfl | hmem
        · exact ⟨by decide, ⟨by decide, by decide⟩, by decide⟩
        · exact hdigits c (s.precision_digits ds (by rw [hp]; rfl) c hmem)

lemma char_ne_percent : s.char ≠ ch '%' := by
  intro h
  have hknown := s.known
  rw [h] at hknown
  exact s.takes (Option.some.inj hknown).symm

lemma char_ne {c : Byte} (hc : conversion? c = none) : s.char ≠ c := by
  intro h
  have hknown := s.known
  rw [h, hc] at hknown
  exact Option.some_ne_none _ hknown.symm

lemma endsAt_char : s.len.EndsAt s.char := by
  have hh : s.char ≠ ch 'h' := s.char_ne (by decide)
  have hl : s.char ≠ ch 'l' := s.char_ne (by decide)
  cases s.len with
  | default => exact ⟨hh, hl⟩
  | shortShort => trivial
  | short => exact hh
  | long => exact hl
  | longLong => trivial

lemma ne_percent_of_mem_behind {c : Byte} (hc : c ∈ s.behind) : c ≠ ch '%' := by
  have hlens : ∀ len : FormatLength, ∀ c ∈ len.text, c ≠ ch '%' := by
    intro len
    cases len <;> decide
  rcases List.mem_append.mp hc with hlen | hchar
  · exact hlens s.len c hlen
  · rw [List.mem_singleton.mp hchar]
    exact s.char_ne_percent

end FormatSpec

lemma Parses.literals {text fmt : List Byte} {ss : List Segment} (htext : ∀ c ∈ text, c ≠ ch '%')
    (h : Parses fmt ss) : Parses (text ++ fmt) (text.map .literal ++ ss) := by
  induction text with
  | nil => exact h
  | cons c text ih =>
      obtain ⟨hc, htext⟩ := List.forall_mem_cons.mp htext
      exact .literal hc (ih htext)

/-- A conversion ends at what stands in front of its length, if there is anything. -/
lemma FormatSpec.parses (s : FormatSpec) {fmt : List Byte} {ss : List Segment}
    (h : Parses fmt ss) : Parses (s.text ++ fmt) (s.segments ++ ss) := by
  have hahead : ∀ c ∈ s.ahead, _ := fun c hc => s.of_mem_ahead hc
  rw [text, segments]
  cases hs : s.ahead with
  | nil => exact .conversion s.endsAt_char h
  | cons d ds =>
      rw [hs] at hahead
      obtain ⟨hd, hds⟩ := List.forall_mem_cons.mp hahead
      have hrest : ∀ c ∈ ds ++ s.behind, c ≠ ch '%' := by
        intro c hc
        rcases List.mem_append.mp hc with hmem | hmem
        · exact (hds c hmem).1
        · exact s.ne_percent_of_mem_behind hmem
      exact @Parses.conversion .default d _ _ hd.2.1 (h.literals hrest)

/-- The pieces that a piece is read as. -/
def FormatItem.segments : FormatItem → List Segment
  | literal c => if c = ch '%' then [.conversion .default c] else [.literal c]
  | spec s => s.segments

/-- **How a format is read.** -/
theorem parses_items (items : List FormatItem) :
    Parses (items.flatMap FormatItem.text) (items.flatMap FormatItem.segments) := by
  induction items with
  | nil => exact .nil
  | cons item items ih =>
      rw [List.flatMap_cons, List.flatMap_cons]
      cases item with
      | literal c =>
          rw [FormatItem.text, FormatItem.segments]
          split_ifs with hc
          · rw [hc]
            exact @Parses.conversion .default (ch '%') _ _ ⟨by decide, by decide⟩ ih
          · exact .literal hc ih
      | spec s => exact s.parses ih

/-! ### The arguments -/

/-- How many arguments a piece takes. -/
def Segment.takes : Segment → ℕ
  | .literal _ => 0
  | .conversion _ c =>
      match conversion? c with
      | none => 0
      | some .percent => 0
      | some _ => 1

/-- What `va_arg` leaves of the arguments is one shorter. -/
lemma length_vaWord {args : VaList} {r : Word × VaList} (h : vaWord args = some r) :
    r.2.length + 1 = args.length := by
  unfold vaWord at h
  split at h
  · rw [← Option.some.inj h]
    rfl
  · exact absurd h (Option.some_ne_none _).symm

lemma length_vaDword {args : VaList} {r : BitVec 64 × VaList} (h : vaDword args = some r) :
    r.2.length + 1 = args.length := by
  unfold vaDword at h
  split at h
  · rw [← Option.some.inj h]
    rfl
  · exact absurd h (Option.some_ne_none _).symm

lemma length_vaText {args : VaList} {r : CString × VaList} (h : vaText args = some r) :
    r.2.length + 1 = args.length := by
  unfold vaText at h
  split at h
  · rw [← Option.some.inj h]
    rfl
  · exact absurd h (Option.some_ne_none _).symm

lemma FormatLength.length_signedArg {len : FormatLength} {args : VaList} {r : ℤ × VaList}
    (h : len.signedArg args = some r) : r.2.length + 1 = args.length := by
  rw [signedArg] at h
  split_ifs at h
  · obtain ⟨u, hu, rfl⟩ := Option.map_eq_some_iff.mp h
    exact length_vaDword hu
  · obtain ⟨u, hu, rfl⟩ := Option.map_eq_some_iff.mp h
    exact length_vaWord hu

lemma FormatLength.length_unsignedArg {len : FormatLength} {args : VaList} {r : ℕ × VaList}
    (h : len.unsignedArg args = some r) : r.2.length + 1 = args.length := by
  rw [unsignedArg] at h
  split_ifs at h
  · obtain ⟨u, hu, rfl⟩ := Option.map_eq_some_iff.mp h
    exact length_vaDword hu
  · obtain ⟨u, hu, rfl⟩ := Option.map_eq_some_iff.mp h
    exact length_vaWord hu

/-- A piece takes as many arguments as it should. -/
lemma length_render {s : Segment} {args : VaList} {r : List Byte × VaList}
    (h : s.render args = some r) : r.2.length + s.takes = args.length := by
  cases s with
  | literal c =>
      rw [← Option.some.inj h]
      rfl
  | conversion len c =>
      rw [Segment.takes]
      cases hc : conversion? c with
      | none =>
          rw [render_of_none hc] at h
          rw [← Option.some.inj h]
          rfl
      | some k =>
          rw [render_of_some hc] at h
          cases k with
          | percent =>
              rw [← Option.some.inj h]
              rfl
          | char =>
              obtain ⟨u, hu, rfl⟩ := Option.map_eq_some_iff.mp h
              exact length_vaWord hu
          | string =>
              obtain ⟨u, hu, rfl⟩ := Option.map_eq_some_iff.mp h
              exact length_vaText hu
          | signed b =>
              obtain ⟨u, hu, rfl⟩ := Option.map_eq_some_iff.mp h
              exact FormatLength.length_signedArg hu
          | unsigned b =>
              obtain ⟨u, hu, rfl⟩ := Option.map_eq_some_iff.mp h
              exact FormatLength.length_unsignedArg hu

/-- **The pieces of a format** take as many arguments as they should together. -/
theorem length_renderAll {ss : List Segment} {args : VaList} {r : List Byte × VaList}
    (h : renderAll ss args = some r) : r.2.length + (ss.map Segment.takes).sum = args.length := by
  induction ss generalizing args r with
  | nil =>
      rw [← Option.some.inj h]
      rfl
  | cons s ss ih =>
      obtain ⟨text, rest⟩ := r
      obtain ⟨t, mid, ts, hs, hss, -⟩ := renderAll_cons_eq_some h
      have hfirst := length_render hs
      have hrest := ih hss
      rw [List.map_cons, List.sum_cons]
      dsimp only at hfirst hrest ⊢
      omega

lemma sum_takes_literals (text : List Byte) :
    ((text.map Segment.literal).map Segment.takes).sum = 0 := by
  induction text with
  | nil => rfl
  | cons c text ih =>
      rw [List.map_cons, List.map_cons, List.sum_cons, ih]
      rfl

namespace FormatSpec

variable (s : FormatSpec)

lemma takes_conversion (len : FormatLength) : (Segment.conversion len s.char).takes = 1 := by
  rw [Segment.takes, s.known]
  split
  · next h => exact absurd h (Option.some_ne_none _)
  · next h => exact absurd (Option.some.inj h) s.takes
  · rfl

instance : Decidable s.Plain := inferInstanceAs (Decidable (_ ∧ _))

/-- A conversion takes its argument exactly if it is plain. -/
lemma sum_takes_segments : (s.segments.map Segment.takes).sum = if s.Plain then 1 else 0 := by
  rw [segments]
  cases hs : s.ahead with
  | nil =>
      rw [if_pos (s.ahead_eq_nil_iff.mp hs), List.map_singleton, List.sum_singleton,
        takes_conversion]
  | cons d ds =>
      have hplain : ¬s.Plain := fun h =>
        List.cons_ne_nil d ds (hs.symm.trans (s.ahead_eq_nil_iff.mpr h))
      have hd : (Segment.conversion .default d).takes = 0 := by
        rw [Segment.takes, (s.of_mem_ahead (hs ▸ List.mem_cons_self)).2.2]
      rw [if_neg hplain, List.map_cons, List.sum_cons, hd, sum_takes_literals]

end FormatSpec

/-- As many arguments are taken as there are plain conversions. -/
lemma sum_takes_items (items : List FormatItem) :
    ((items.flatMap FormatItem.segments).map Segment.takes).sum =
      (formatSpecs items).countP fun s => decide s.Plain := by
  induction items with
  | nil => rfl
  | cons item items ih =>
      rw [List.flatMap_cons, List.map_append, List.sum_append, ih]
      cases item with
      | literal c =>
          have hzero : ((FormatItem.literal c).segments.map Segment.takes).sum = 0 := by
            rw [FormatItem.segments]
            split_ifs with hc
            · rw [hc]
              decide
            · rfl
          rw [hzero, Nat.zero_add]
          rfl
      | spec s =>
          have hspecs : formatSpecs (.spec s :: items) = s :: formatSpecs items := rfl
          rw [hspecs, List.countP_cons, FormatItem.segments, s.sum_takes_segments, Nat.add_comm]
          simp only [decide_eq_true_eq]

/-! ### The text -/

/-- A conversion renders the argument it wants. -/
lemma Conversion.render_of_wants {len : FormatLength} {k : Conversion} {a : Arg}
    (ha : k.Wants len a) (args : VaList) : k.render len (a :: args) = some (k.argText a, args) := by
  cases k with
  | char =>
      cases a with
      | word w => rfl
      | dword d => exact ha.elim
      | text t => exact ha.elim
  | string =>
      cases a with
      | word w => exact ha.elim
      | dword d => exact ha.elim
      | text t => rfl
  | percent => cases a <;> exact ha.elim
  | signed b =>
      rw [render, FormatLength.signedArg]
      cases a with
      | word w =>
          rw [if_neg ha]
          rfl
      | dword d =>
          rw [if_pos (show len = .longLong from ha)]
          rfl
      | text t => exact ha.elim
  | unsigned b =>
      rw [render, FormatLength.unsignedArg]
      cases a with
      | word w =>
          rw [if_neg ha]
          rfl
      | dword d =>
          rw [if_pos (show len = .longLong from ha)]
          rfl
      | text t => exact ha.elim

/-- **Plain conversions** print the arguments they stand for. -/
theorem renderAll_items {fill : List Byte → Option (List Byte) → List Byte → List Byte}
    (hfill : ∀ t, fill [] none t = t) {items : List FormatItem}
    (hplain : ∀ s ∈ formatSpecs items, s.Plain) {args : List Arg}
    (hargs : List.Forall₂ FormatSpec.Wants (formatSpecs items) args) (rest : VaList) :
    renderAll (items.flatMap FormatItem.segments) (args ++ rest) =
      some (itemsText fill items args, rest) := by
  induction items generalizing args with
  | nil =>
      obtain rfl := List.forall₂_nil_left_iff.mp hargs
      rfl
  | cons item items ih =>
      rw [List.flatMap_cons]
      cases item with
      | literal c =>
          have hrest := ih hplain hargs
          have hliteral : renderAll ((FormatItem.literal c).segments ++
              items.flatMap FormatItem.segments) (args ++ rest) =
              (renderAll (items.flatMap FormatItem.segments) (args ++ rest)).map
                fun r => (c :: r.1, r.2) := by
            rw [FormatItem.segments]
            split_ifs with hc
            · have hpercent : conversion? c = some .percent := by
                rw [hc]
                decide
              rw [List.singleton_append, renderAll, render_of_some hpercent, Conversion.render, hc]
              simp only [Option.bind_eq_bind, Option.bind_some]
              cases renderAll (items.flatMap FormatItem.segments) (args ++ rest) <;> rfl
            · exact renderAll_literals [c] _ _
          rw [hliteral, hrest, itemsText]
          rfl
      | spec s =>
          have hspecs : formatSpecs (.spec s :: items) = s :: formatSpecs items := rfl
          rw [hspecs] at hplain hargs
          obtain ⟨hs, hplain⟩ := List.forall_mem_cons.mp hplain
          obtain ⟨a, args, ha, htail, rfl⟩ := List.forall₂_cons_left_iff.mp hargs
          have hsegments : s.segments = [.conversion s.len s.char] := by
            rw [FormatSpec.segments, s.ahead_eq_nil_iff.mpr hs]
          rw [FormatItem.segments, hsegments, List.singleton_append, renderAll, List.cons_append,
            render_of_some s.known, Conversion.render_of_wants ha, itemsText, hs.1, hs.2, hfill,
            FormatSpec.argText]
          simp only [Option.bind_eq_bind, Option.bind_some, ih hplain htail]

/-- **Every conversion prints the argument it stands for**, and takes no other, exactly if none of
them has flags, a width or a precision, whatever these are supposed to mean. -/
theorem prints_its_own_iff {fill : List Byte → Option (List Byte) → List Byte → List Byte}
    (hfill : ∀ t, fill [] none t = t) {fmt : CString} {items : List FormatItem}
    (hfmt : fmt.chars = items.flatMap FormatItem.text) {args : List Arg}
    (hargs : List.Forall₂ FormatSpec.Wants (formatSpecs items) args) (rest : VaList) :
    vfprintf fmt (args ++ rest) = some (itemsText fill items args, rest) ↔
      ∀ s ∈ formatSpecs items, s.flags = [] ∧ s.precision = none := by
  have hparses : Parses fmt.chars (items.flatMap FormatItem.segments) := by
    rw [hfmt]
    exact parses_items items
  rw [vfprintf_of_parses hparses]
  constructor
  · intro hprint
    have hlength := length_renderAll hprint
    rw [sum_takes_items, List.length_append, ← hargs.length_eq, Nat.add_comm,
      Nat.add_right_cancel_iff, List.countP_eq_length] at hlength
    exact fun s hs => of_decide_eq_true (hlength s hs)
  · intro hplain
    exact renderAll_items hfill hplain hargs rest

/-- `%X`, with the flags and the width given. -/
def hexSpec (flags : List Byte) (h : ∀ c ∈ flags, c ∈ decimalDigits) : FormatSpec where
  flags := flags
  precision := none
  len := .default
  char := ch 'X'
  conversion := .unsigned 16
  flags_digits := h
  precision_digits := fun ds hds => absurd hds (Option.not_mem_none ds)
  known := by decide
  takes := by decide

/-- `x%X`. -/
def plainItems : List FormatItem := [.literal (ch 'x'), .spec (hexSpec [] (by decide))]

/-- `%08X`. -/
def wideItems : List FormatItem := [.spec (hexSpec (ascii "08") (by decide))]

/-- The argument of a plain conversion is printed, and another one is left. -/
theorem prints_its_own_iff_plain :
    vfprintf ⟨ascii "x%X", by decide⟩ [.word 10#32, .word 7#32] =
      some (ascii "xa", [.word 7#32]) := by
  have hwants : (hexSpec [] (by decide)).Wants (.word 10#32) :=
    (by decide : FormatLength.default ≠ .longLong)
  have hprints := @prints_its_own_iff (fun _ _ t => t) (fun _ => rfl) ⟨ascii "x%X", by decide⟩
    plainItems rfl [.word 10#32] (.cons hwants .nil) [.word 7#32]
  have hdigit : digitText 16 10 = [ch 'a'] := by
    rw [digitText, Numeral.numeral_of_lt (by decide) (by decide)]
    decide
  refine (hprints.mpr fun s hs => ?_).trans ?_
  · rw [List.mem_singleton.mp hs]
    exact ⟨rfl, rfl⟩
  · exact congrArg (fun t => some (ch 'x' :: (t ++ []), [Arg.word 7#32])) hdigit

/-- `%08X` prints `8X`, and leaves its argument to the next conversion. -/
theorem wide_conversion_leaks :
    wideItems.flatMap FormatItem.text = ascii "%08X" ∧
      vfprintf ⟨ascii "%08X", by decide⟩ [.word 42#32] = some (ascii "8X", [.word 42#32]) ∧
      ∀ fill, vfprintf ⟨ascii "%08X", by decide⟩ [.word 42#32] ≠
        some (itemsText fill wideItems [.word 42#32], []) := by
  have hprints : vfprintf ⟨ascii "%08X", by decide⟩ [.word 42#32] =
      some (ascii "8X", [.word 42#32]) := by
    rw [vfprintf_render]
    rfl
  refine ⟨rfl, hprints, fun fill h => ?_⟩
  obtain ⟨-, hrest⟩ := Prod.mk.inj (Option.some.inj (hprints.symm.trans h))
  exact List.cons_ne_nil _ _ hrest

end MiqOSoft
