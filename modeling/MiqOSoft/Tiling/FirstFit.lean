import MiqOSoft.Tiling.Segments

/-!
First-fit allocation and coalescing release on segment lists.

* `allocate`: the first free segment that is long enough is taken; if more than `margin`
  bytes would remain behind a further header, they are split off as a free segment
  (`carve`).  `allocate_eq_none_iff` says when there is no such segment, `allocate_spec`
  what the new list is: the taken segment is the only new used one.
* `release` marks the segment at an address free, `coalesce` merges neighbouring free
  segments in one pass from the left.
* `IsArena`: the invariant of the discipline, a coalesced tiling of a fixed interval by
  segments whose lengths with header are multiples of a grain `d`.  It is kept by
  `allocate` (`IsArena.allocate`) and by `coalesce` after `release` (`IsArena.release`).
-/

namespace Tiling

variable {h margin n : ℕ}

/-! ### Allocation -/

/-- Taking `n` bytes of a free segment: the rest is split off when it holds a header and more
than `margin` bytes, and stays with the segment otherwise. -/
def carve (h margin n : ℕ) (s : Seg) : List Seg :=
  if n + h + margin < s.len then [⟨n, false⟩, ⟨s.len - n - h, true⟩] else [⟨s.len, false⟩]

/-- First fit: the header address of the taken segment and the new list. -/
def allocate (h margin n : ℕ) : ℕ → List Seg → Option (ℕ × List Seg)
  | _, [] => none
  | a, s :: l =>
      if s.free = true ∧ n ≤ s.len then some (a, carve h margin n s ++ l)
      else (allocate h margin n (a + h + s.len) l).map fun r => (r.1, s :: r.2)

/-- There is no allocation exactly when no free segment is long enough. -/
lemma allocate_eq_none_iff {a : ℕ} {l : List Seg} :
    allocate h margin n a l = none ↔ ∀ s ∈ l, s.free = true → s.len < n := by
  induction l generalizing a with
  | nil => simp [allocate]
  | cons s l ih =>
      rw [allocate]
      split_ifs with hs
      · simp only [false_iff, not_forall]
        exact ⟨s, List.mem_cons_self, hs.1, by omega⟩
      · rw [Option.map_eq_none_iff, ih, List.forall_mem_cons, iff_and_self]
        intro _ hfree
        by_contra hlt
        exact hs ⟨hfree, by omega⟩

/-- What an allocation does, from the list before to the list after. -/
structure Taken (h margin n : ℕ) (a : ℕ) (l : List Seg) (x : ℕ) (l' : List Seg) : Prop where
  /-- The segment is cut from a free one that is long enough. -/
  source : ∃ s, (x, s) ∈ placed h a l ∧ s.free = true ∧ n ≤ s.len
  /-- The taken segment is the only new used one. -/
  used_eq : ∃ k, n ≤ k ∧ used h a l' = insert (x, k) (used h a l)
  extent_eq : extent h l' = extent h l
  coalesced : Coalesced l → Coalesced l'
  dvd : ∀ d, d ∣ n + h → (∀ s ∈ l, d ∣ h + s.len) → ∀ s ∈ l', d ∣ h + s.len
  ne_nil : l' ≠ []

/-- Taking the head segment and splitting off the rest of it. -/
lemma taken_split {a k : ℕ} (l : List Seg) (hk : n + h + margin < k) :
    Taken h margin n a (⟨k, true⟩ :: l) a (⟨n, false⟩ :: ⟨k - n - h, true⟩ :: l) where
  source := ⟨⟨k, true⟩, by simp, rfl, by dsimp only; omega⟩
  used_eq := by
    refine ⟨n, le_refl n, ?_⟩
    rw [used_cons_used, used_cons_free, used_cons_free,
      show a + h + n + h + (k - n - h) = a + h + k by omega]
  extent_eq := by
    simp only [extent_cons]
    omega
  coalesced hl := coalesced_cons_cons.mpr
    ⟨by simp, Coalesced.congr_head (s := ⟨k, true⟩) rfl hl⟩
  dvd d hd hl s hs := by
    have hk' : d ∣ h + k := hl _ List.mem_cons_self
    simp only [List.mem_cons] at hs
    rcases hs with rfl | rfl | hs
    · rwa [Nat.add_comm]
    · have hrest := Nat.dvd_sub hk' hd
      rwa [show h + k - (n + h) = h + (k - n - h) by omega] at hrest
    · exact hl s (List.mem_cons_of_mem _ hs)
  ne_nil := by simp

/-- Taking the head segment whole. -/
lemma taken_whole {a k : ℕ} (l : List Seg) (hn : n ≤ k) :
    Taken h margin n a (⟨k, true⟩ :: l) a (⟨k, false⟩ :: l) where
  source := ⟨⟨k, true⟩, by simp, rfl, hn⟩
  used_eq := ⟨k, hn, by rw [used_cons_used, used_cons_free]⟩
  extent_eq := rfl
  coalesced hl := hl.tail.cons_used rfl
  dvd d _ hl s hs := by
    rcases List.mem_cons.mp hs with rfl | hs
    · exact hl ⟨k, true⟩ List.mem_cons_self
    · exact hl s (List.mem_cons_of_mem _ hs)
  ne_nil := by simp

/-- The list in which the head segment is taken. -/
lemma taken_head {a : ℕ} {s : Seg} (l : List Seg) (hfree : s.free = true) (hn : n ≤ s.len) :
    Taken h margin n a (s :: l) a (carve h margin n s ++ l) := by
  obtain ⟨k, b⟩ := s
  obtain rfl : b = true := hfree
  rw [carve]
  split_ifs with hk
  · exact taken_split l hk
  · exact taken_whole l hn

/-- The first segment keeps its free flag or was free. -/
lemma head_free_of_allocate {a x : ℕ} {l l' : List Seg}
    (hal : allocate h margin n a l = some (x, l')) :
    ∃ s s' r r', l = s :: r ∧ l' = s' :: r' ∧ (s'.free = true → s.free = true) := by
  cases l with
  | nil => simp [allocate] at hal
  | cons s l =>
      rw [allocate] at hal
      split_ifs at hal with hs
      · obtain ⟨-, rfl⟩ := Prod.mk.injEq .. ▸ Option.some.inj hal
        refine ⟨s, ?_⟩
        rw [carve]
        split_ifs <;> exact ⟨_, _, _, rfl, rfl, fun _ => hs.1⟩
      · obtain ⟨r, hr, heq⟩ := Option.map_eq_some_iff.mp hal
        obtain ⟨-, rfl⟩ := Prod.mk.injEq .. ▸ heq
        exact ⟨s, s, l, r.2, rfl, rfl, id⟩

/-- **First fit** takes one segment and changes no other. -/
theorem allocate_spec {a x : ℕ} {l l' : List Seg}
    (hal : allocate h margin n a l = some (x, l')) : Taken h margin n a l x l' := by
  induction l generalizing a l' with
  | nil => simp [allocate] at hal
  | cons s l ih =>
      rw [allocate] at hal
      split_ifs at hal with hs
      · obtain ⟨rfl, rfl⟩ := Prod.mk.injEq .. ▸ Option.some.inj hal
        exact taken_head l hs.1 hs.2
      · obtain ⟨⟨y, r⟩, hr, heq⟩ := Option.map_eq_some_iff.mp hal
        obtain ⟨rfl, rfl⟩ := Prod.mk.injEq .. ▸ heq
        have ht := ih hr
        obtain ⟨k, hk, hused⟩ := ht.used_eq
        obtain ⟨t, htm, htf, htn⟩ := ht.source
        refine ⟨⟨t, mem_placed_cons.mpr (Or.inr htm), htf, htn⟩, ⟨k, hk, ?_⟩, ?_, ?_, ?_, by simp⟩
        · obtain ⟨m, _ | _⟩ := s
          · rw [used_cons_used, used_cons_used, hused, Set.insert_comm]
          · rw [used_cons_free, used_cons_free, hused]
        · rw [extent_cons, extent_cons, ht.extent_eq]
        · intro hl
          obtain ⟨u, u', v, v', rfl, rfl, hfree⟩ := head_free_of_allocate hr
          rw [coalesced_cons_cons] at hl ⊢
          exact ⟨fun hb => hl.1 ⟨hb.1, hfree hb.2⟩, ht.coalesced hl.2⟩
        · intro d hd hl u hu
          rcases List.mem_cons.mp hu with rfl | hu
          · exact hl u List.mem_cons_self
          · exact ht.dvd d hd (fun v hv => hl v (List.mem_cons_of_mem _ hv)) u hu

/-! ### Release -/

/-- Marking the segment with header address `x` free. -/
def release (h x : ℕ) : ℕ → List Seg → List Seg
  | _, [] => []
  | a, s :: l => if a = x then { s with free := true } :: l else s :: release h x (a + h + s.len) l

/-- Merging the free neighbours of a list with head `s`, from the left. -/
def coalesceFrom (h : ℕ) : Seg → List Seg → List Seg
  | s, [] => [s]
  | s, t :: l =>
      if s.free = true ∧ t.free = true then coalesceFrom h ⟨s.len + t.len + h, true⟩ l
      else s :: coalesceFrom h t l

/-- Merging all free neighbours. -/
def coalesce (h : ℕ) : List Seg → List Seg
  | [] => []
  | s :: l => coalesceFrom h s l

@[simp] lemma extent_release {x a : ℕ} {l : List Seg} :
    extent h (release h x a l) = extent h l := by
  induction l generalizing a with
  | nil => rfl
  | cons s l ih =>
      rw [release]
      split_ifs with hx
      · rfl
      · rw [extent_cons, extent_cons, ih]

lemma release_ne_nil {x a : ℕ} {l : List Seg} (hl : l ≠ []) : release h x a l ≠ [] := by
  cases l with
  | nil => exact absurd rfl hl
  | cons s l =>
      rw [release]
      split_ifs <;> simp

/-- Releasing changes free flags only. -/
lemma mem_placed_release {x y a : ℕ} {t : Seg} {l : List Seg}
    (ht : (y, t) ∈ placed h a (release h x a l)) :
    ∃ t', (y, t') ∈ placed h a l ∧ t.len = t'.len := by
  induction l generalizing a with
  | nil => simp [release] at ht
  | cons s l ih =>
      rw [release] at ht
      split_ifs at ht with hx
      · rcases mem_placed_cons.mp ht with heq | ht
        · obtain ⟨rfl, rfl⟩ := Prod.mk.injEq .. ▸ heq
          exact ⟨s, by simp, rfl⟩
        · exact ⟨t, mem_placed_cons.mpr (Or.inr ht), rfl⟩
      · rcases mem_placed_cons.mp ht with heq | ht
        · exact ⟨t, mem_placed_cons.mpr (Or.inl heq), rfl⟩
        · obtain ⟨t', ht', hlen⟩ := ih ht
          exact ⟨t', mem_placed_cons.mpr (Or.inr ht'), hlen⟩

/-- Releasing removes the segment at `x` from the used ones, and no other. -/
lemma used_release (hh : 0 < h) {x a : ℕ} {l : List Seg} :
    used h a (release h x a l) = used h a l \ {p | p.1 = x} := by
  induction l generalizing a with
  | nil => simp [release]
  | cons s l ih =>
      obtain ⟨n, b⟩ := s
      have hout : used h (a + h + n) l \ {p | p.1 = a} = used h (a + h + n) l := by
        refine sdiff_eq_left.mpr ?_
        rw [Set.disjoint_left]
        rintro ⟨y, k⟩ hy rfl
        have hle := (bounds_of_mem_placed hy).1
        dsimp only at hle
        omega
      rw [release]
      split_ifs with hx
      · subst hx
        cases b with
        | false =>
            rw [used_cons_free, used_cons_used, Set.insert_sdiff_of_mem _ (by exact rfl), hout]
        | true => rw [used_cons_free, hout]
      · cases b with
        | false =>
            rw [used_cons_used, used_cons_used, ih,
              Set.insert_sdiff_of_notMem _ (by exact hx)]
        | true => rw [used_cons_free, used_cons_free, ih]

/-! ### Coalescing -/

/-- The head of a coalesced list keeps the free flag of its seed. -/
lemma coalesceFrom_eq_cons (s : Seg) (l : List Seg) :
    ∃ n r, coalesceFrom h s l = ⟨n, s.free⟩ :: r := by
  induction l generalizing s with
  | nil => exact ⟨s.len, [], rfl⟩
  | cons t l ih =>
      rw [coalesceFrom]
      split_ifs with hs
      · rw [hs.1]
        exact ih _
      · exact ⟨s.len, _, rfl⟩

lemma extent_coalesceFrom (s : Seg) (l : List Seg) :
    extent h (coalesceFrom h s l) = extent h (s :: l) := by
  induction l generalizing s with
  | nil => rfl
  | cons t l ih =>
      rw [coalesceFrom]
      split_ifs with hs
      · rw [ih]
        simp only [extent_cons]
        omega
      · rw [extent_cons, extent_cons, ih]

lemma coalesced_coalesceFrom (s : Seg) (l : List Seg) : Coalesced (coalesceFrom h s l) := by
  induction l generalizing s with
  | nil => exact coalesced_singleton s
  | cons t l ih =>
      rw [coalesceFrom]
      split_ifs with hs
      · exact ih _
      · have ht := ih t
        obtain ⟨n, r, heq⟩ := coalesceFrom_eq_cons (h := h) t l
        rw [heq] at ht ⊢
        exact coalesced_cons_cons.mpr ⟨hs, ht⟩

lemma used_coalesceFrom {a : ℕ} (s : Seg) (l : List Seg) :
    used h a (coalesceFrom h s l) = used h a (s :: l) := by
  induction l generalizing a s with
  | nil => rfl
  | cons t l ih =>
      obtain ⟨n, b⟩ := s
      obtain ⟨k, c⟩ := t
      rw [coalesceFrom]
      split_ifs with hs
      · obtain ⟨rfl, rfl⟩ : b = true ∧ c = true := hs
        rw [ih, used_cons_free, used_cons_free, used_cons_free,
          show a + h + (n + k + h) = a + h + n + h + k by omega]
      · cases b with
        | false => rw [used_cons_used, used_cons_used, ih]
        | true => rw [used_cons_free, used_cons_free, ih]

lemma dvd_coalesceFrom {d : ℕ} (s : Seg) (l : List Seg) (hd : ∀ t ∈ s :: l, d ∣ h + t.len) :
    ∀ t ∈ coalesceFrom h s l, d ∣ h + t.len := by
  induction l generalizing s with
  | nil => exact hd
  | cons u l ih =>
      intro t ht
      have hsu : d ∣ h + (s.len + u.len + h) := by
        have := Nat.dvd_add (hd s (by simp)) (hd u (by simp))
        rwa [show h + s.len + (h + u.len) = h + (s.len + u.len + h) by omega] at this
      rw [coalesceFrom] at ht
      split_ifs at ht with hs
      · refine ih _ (fun v hv => ?_) t ht
        rcases List.mem_cons.mp hv with rfl | hv
        · exact hsu
        · exact hd v (by simp [hv])
      · rcases List.mem_cons.mp ht with rfl | ht
        · exact hd t (by simp)
        · exact ih u (fun v hv => hd v (List.mem_cons_of_mem _ hv)) t ht

/-- Coalescing a coalesced list changes nothing. -/
lemma coalesceFrom_of_coalesced {s : Seg} {l : List Seg} (hl : Coalesced (s :: l)) :
    coalesceFrom h s l = s :: l := by
  induction l generalizing s with
  | nil => rfl
  | cons t l ih =>
      rw [coalesced_cons_cons] at hl
      rw [coalesceFrom, if_neg hl.1, ih hl.2]

/-! ### The invariant of the discipline -/

/-- A coalesced tiling of an interval of length `total` by segments whose lengths with header
are multiples of `d`. -/
structure IsArena (h d total : ℕ) (l : List Seg) : Prop where
  ne_nil : l ≠ []
  extent_eq : extent h l = total
  dvd : ∀ s ∈ l, d ∣ h + s.len
  coalesced : Coalesced l

namespace IsArena

variable {d total : ℕ} {l : List Seg}

/-- The single free segment is an arena. -/
lemma singleton (hd : d ∣ total) (hle : h ≤ total) : IsArena h d total [⟨total - h, true⟩] where
  ne_nil := by simp
  extent_eq := by
    simp only [extent_cons, extent_nil]
    omega
  dvd := by
    intro s hs
    rw [List.mem_singleton.mp hs]
    dsimp only
    rwa [Nat.add_sub_cancel' hle]
  coalesced := coalesced_singleton _

/-- Allocation keeps the arena. -/
theorem allocate {a x : ℕ} {l' : List Seg} (hl : IsArena h d total l) (hn : d ∣ n + h)
    (hal : Tiling.allocate h margin n a l = some (x, l')) : IsArena h d total l' :=
  have ht := allocate_spec hal
  ⟨ht.ne_nil, ht.extent_eq.trans hl.extent_eq, ht.dvd d hn hl.dvd, ht.coalesced hl.coalesced⟩

/-- Coalescing after a release keeps the arena. -/
theorem release {a x : ℕ} (hl : IsArena h d total l) :
    IsArena h d total (coalesce h (Tiling.release h x a l)) := by
  have hdvd : ∀ s ∈ Tiling.release h x a l, d ∣ h + s.len := by
    intro s hs
    obtain ⟨y, hy⟩ := exists_placed_of_mem hs
    obtain ⟨s', hs', hlen⟩ := mem_placed_release hy
    rw [hlen]
    exact hl.dvd s' (mem_of_mem_placed hs')
  have hext := (extent_release (x := x) (a := a)).trans hl.extent_eq
  obtain ⟨s, r, heq⟩ := List.exists_cons_of_ne_nil (release_ne_nil (x := x) (a := a) hl.ne_nil)
  rw [heq] at hdvd hext ⊢
  obtain ⟨k, r', hcons⟩ := coalesceFrom_eq_cons (h := h) s r
  exact ⟨by rw [coalesce, hcons]; simp, (extent_coalesceFrom s r).trans hext,
    dvd_coalesceFrom s r hdvd, coalesced_coalesceFrom s r⟩

/-- An arena in which nothing is used is the single free segment. -/
theorem eq_singleton {a : ℕ} (hl : IsArena h d total l) (hu : used h a l = ∅) :
    l = [⟨total - h, true⟩] := by
  obtain ⟨k, rfl⟩ := eq_singleton_of_coalesced hl.coalesced hl.ne_nil hu
  have hext := hl.extent_eq
  rw [extent_cons, extent_nil] at hext
  rw [show k = total - h by dsimp only at hext; omega]

end IsArena

lemma used_coalesce {a : ℕ} (l : List Seg) : used h a (coalesce h l) = used h a l := by
  cases l with
  | nil => rfl
  | cons s l => exact used_coalesceFrom s l

end Tiling
