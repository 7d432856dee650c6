import Mathlib.Data.List.Basic
import Mathlib.Logic.Function.Basic
import Mathlib.Order.CompletePartialOrder

/-!
Tables of named entries, and the trees of paths that they stand for.

* `Table`: entries in slots, each with the slot of its directory, its name and what it is.
  `At root t i p`: the slot `i` is found at the path `p`.
* `Tree`: what is at each path.  A path begins with the name of the entry itself, and the root is
  at the empty one.  Every entry lies in a directory, by construction.
* `Table.Ok`: the entries are found from the root, lie in directories, and no two of a directory
  have the same name.  Then slots and paths correspond (`At.path_unique`, `Table.Ok.slot_unique`).
* `Represents`: the table holds the tree.  `Represents.insert`, `Represents.erase` and
  `Represents.write`: a change of one slot is a change of one path.
-/

namespace Forest

/-- What an entry is. -/
inductive Node (Data : Type*)
  | dir
  | file (data : Data)

/-- An entry: the slot of its directory, its name, and what it is. -/
structure Item (ι Name Data : Type*) where
  parent : ι
  name : Name
  node : Node Data

/-- The entries in the slots. -/
abbrev Table (ι Name Data : Type*) := ι → Option (Item ι Name Data)

/-- What is at each path, the name of the entry first.  Every entry lies in a directory. -/
@[ext] structure Tree (Name Data : Type*) where
  node : List Name → Option (Node Data)
  root : node [] = some .dir
  parent : ∀ n p x, node (n :: p) = some x → node p = some .dir

variable {ι Name Data : Type*}

/-! ### Trees -/

namespace Tree

/-- The root alone. -/
def empty : Tree Name Data where
  node p := if p.isEmpty then some .dir else none
  root := rfl
  parent := by simp

variable [DecidableEq Name] {n m : Name} {p q : List Name} {x : Node Data} {d : Data}

/-- A new entry of a directory. -/
def insert (T : Tree Name Data) (n : Name) (p : List Name) (x : Node Data)
    (hp : T.node p = some .dir) (hn : T.node (n :: p) = none) : Tree Name Data where
  node := Function.update T.node (n :: p) (some x)
  root := by
    rw [Function.update_of_ne (List.cons_ne_nil n p).symm]
    exact T.root
  parent m q y hm := by
    by_cases heq : m :: q = n :: p
    · obtain ⟨rfl, rfl⟩ := List.cons.inj heq
      rw [Function.update_of_ne (List.cons_ne_self m q).symm]
      exact hp
    · rw [Function.update_of_ne heq] at hm
      have hq := T.parent m q y hm
      rw [Function.update_of_ne]
      · exact hq
      · rintro rfl
        exact Option.some_ne_none _ (hq.symm.trans hn)

/-- A directory without entries, or a file, is removed. -/
def erase (T : Tree Name Data) (n : Name) (p : List Name)
    (hleaf : ∀ m, T.node (m :: n :: p) = none) : Tree Name Data where
  node := Function.update T.node (n :: p) none
  root := by
    rw [Function.update_of_ne (List.cons_ne_nil n p).symm]
    exact T.root
  parent m q y hm := by
    by_cases heq : m :: q = n :: p
    · rw [heq, Function.update_self] at hm
      exact absurd hm.symm (Option.some_ne_none y)
    · rw [Function.update_of_ne heq] at hm
      have hq := T.parent m q y hm
      rw [Function.update_of_ne]
      · exact hq
      · rintro rfl
        exact Option.some_ne_none _ (hm.symm.trans (hleaf m))

/-- A file gets other data. -/
def write (T : Tree Name Data) (n : Name) (p : List Name) (d : Data)
    (hfile : ∃ d', T.node (n :: p) = some (.file d')) : Tree Name Data where
  node := Function.update T.node (n :: p) (some (.file d))
  root := by
    rw [Function.update_of_ne (List.cons_ne_nil n p).symm]
    exact T.root
  parent m q y hm := by
    obtain ⟨d', hd⟩ := hfile
    by_cases heq : m :: q = n :: p
    · obtain ⟨rfl, rfl⟩ := List.cons.inj heq
      rw [Function.update_of_ne (List.cons_ne_self m q).symm]
      exact T.parent _ _ _ hd
    · rw [Function.update_of_ne heq] at hm
      have hq := T.parent m q y hm
      rw [Function.update_of_ne]
      · exact hq
      · rintro rfl
        have := Option.some.inj (hq.symm.trans hd)
        cases this

end Tree

/-! ### Paths of slots -/

/-- The slot is found at the path. -/
inductive At (root : ι) (t : Table ι Name Data) : ι → List Name → Prop
  | root : At root t root []
  | child {i : ι} {a : Item ι Name Data} {p : List Name} (hi : i ≠ root) (ha : t i = some a)
      (hparent : At root t a.parent p) : At root t i (a.name :: p)

variable {root i j slot dir : ι} {t t' : Table ι Name Data} {p q : List Name}
  {T : Tree Name Data} {n : Name} {x : Node Data} {d : Data}

/-- A slot is at one path. -/
lemma At.path_unique (h : At root t i p) (h' : At root t i q) : p = q := by
  induction h generalizing q with
  | root =>
      cases h' with
      | root => rfl
      | child hi => exact absurd rfl hi
  | child hi ha _ ih =>
      cases h' with
      | root => exact absurd rfl hi
      | child _ ha' hparent' =>
          obtain rfl := Option.some.inj (ha.symm.trans ha')
          rw [ih hparent']

lemma At.eq_root (h : At root t i []) : i = root := by
  cases h
  rfl

lemma At.cons_inv (h : At root t i (n :: p)) :
    i ≠ root ∧ ∃ a, t i = some a ∧ a.name = n ∧ At root t a.parent p := by
  cases h with
  | child hi ha hparent => exact ⟨hi, _, ha, rfl, hparent⟩

/-- Paths rest on the parents and names. -/
lemma At.congr (h : At root t i p)
    (heq : ∀ i a, t i = some a → ∃ b, t' i = some b ∧ b.parent = a.parent ∧ b.name = a.name) :
    At root t' i p := by
  induction h with
  | root => exact .root
  | child hi ha _ ih =>
      obtain ⟨b, hb, hparent, hname⟩ := heq _ _ ha
      rw [← hname]
      exact .child hi hb (hparent ▸ ih)

/-- The entries are found from the root, lie in directories and have names of their own. -/
structure Table.Ok (root : ι) (t : Table ι Name Data) : Prop where
  root_dir : ∃ a, t root = some a ∧ a.node = .dir
  parent_dir : ∀ i a, t i = some a → ∃ b, t a.parent = some b ∧ b.node = .dir
  reached : ∀ i a, t i = some a → ∃ p, At root t i p
  unique : ∀ i j a b, t i = some a → t j = some b → a.parent = b.parent → a.name = b.name → i = j

/-- A path leads to one slot. -/
lemma Table.Ok.slot_unique (h : t.Ok root) (hi : At root t i p) (hj : At root t j p) : i = j := by
  induction hi generalizing j with
  | root => exact hj.eq_root.symm
  | child _ ha _ ih =>
      obtain ⟨-, b, hb, hname, hparent⟩ := hj.cons_inv
      exact h.unique _ _ _ _ ha hb (ih hparent) hname.symm

/-- A slot that is found is in use. -/
lemma At.used (h : t.Ok root) (hi : At root t i p) : ∃ a, t i = some a := by
  cases hi with
  | root => exact h.root_dir.imp fun _ ha => ha.1
  | child _ ha => exact ⟨_, ha⟩

/-! ### Representation -/

/-- The table holds the tree: what is at a path is what is in the slot found there. -/
def Represents (root : ι) (t : Table ι Name Data) (T : Tree Name Data) : Prop :=
  ∀ p x, T.node p = some x ↔ ∃ i a, At root t i p ∧ t i = some a ∧ a.node = x

namespace Represents

variable {a : Item ι Name Data}

lemma node_eq (h : Represents root t T) (hi : At root t i p) (ha : t i = some a) :
    T.node p = some a.node := (h p a.node).mpr ⟨i, a, hi, ha, rfl⟩

/-- Nothing is at a path of a directory whose name no entry has. -/
lemma node_eq_none (h : Represents root t T) (hok : t.Ok root) (hdir : At root t dir p)
    (hnew : ∀ i a, t i = some a → a.parent = dir → a.name ≠ n) : T.node (n :: p) = none := by
  cases hnode : T.node (n :: p) with
  | none => rfl
  | some x =>
      obtain ⟨i, a, hi, ha, -⟩ := (h _ _).mp hnode
      obtain ⟨-, b, hb, hname, hparent⟩ := hi.cons_inv
      exact absurd hname (hnew i b hb (hok.slot_unique hparent hdir))

/-- Nothing lies under an entry that is no parent. -/
lemma leaf_of_table (h : Represents root t T) (hok : t.Ok root) (hslot : At root t slot p)
    (hleaf : ∀ j b, t j = some b → b.parent ≠ slot) (m : Name) : T.node (m :: p) = none :=
  h.node_eq_none hok hslot fun j b hb heq => absurd heq (hleaf j b hb)

variable [DecidableEq ι]

/-- The slots that a new entry leaves where they are, and its own. -/
lemma at_insert_iff (hok : t.Ok root) (hfree : t slot = none) (hdir : ∃ b, t dir = some b) :
    At root (Function.update t slot (some ⟨dir, n, x⟩)) i p ↔
      At root t i p ∨ i = slot ∧ ∃ q, p = n :: q ∧ At root t dir q := by
  have hused : ∀ {k b}, t k = some b → k ≠ slot := by
    rintro k b hk rfl
    exact Option.some_ne_none _ (hk.symm.trans hfree)
  constructor
  · intro h
    induction h with
    | root => exact .inl .root
    | @child i a p hi ha _ ih =>
        by_cases his : i = slot
        · subst his
          rw [Function.update_self] at ha
          obtain rfl := Option.some.inj ha
          rcases ih with hq | ⟨heq, -⟩
          · exact .inr ⟨rfl, p, rfl, hq⟩
          · exact absurd heq (hused hdir.choose_spec)
        · rw [Function.update_of_ne his] at ha
          rcases ih with hq | ⟨heq, -⟩
          · exact .inl (.child hi ha hq)
          · obtain ⟨b, hb, -⟩ := hok.parent_dir i a ha
            exact absurd heq (hused hb)
  · have hold : ∀ {k q}, At root t k q →
        At root (Function.update t slot (some ⟨dir, n, x⟩)) k q := fun hk =>
      hk.congr fun k b hb => ⟨b, by rw [Function.update_of_ne (hused hb), hb], rfl, rfl⟩
    rintro (h | ⟨rfl, q, rfl, hq⟩)
    · exact hold h
    · have hroot : i ≠ root := by
        obtain ⟨b, hb, -⟩ := hok.root_dir
        exact (hused hb).symm
      exact At.child (a := ⟨dir, n, x⟩) hroot (Function.update_self ..) (hold hq)

/-- The slots that the removal of a leaf leaves where they are. -/
lemma at_erase_iff (hleaf : ∀ j b, t j = some b → b.parent ≠ slot) (hroot : slot ≠ root) :
    At root (Function.update t slot none) i p ↔ At root t i p ∧ i ≠ slot := by
  constructor
  · intro h
    refine ⟨h.congr fun k b hb => ?_, ?_⟩
    · by_cases hk : k = slot
      · rw [hk, Function.update_self] at hb
        exact absurd hb.symm (Option.some_ne_none b)
      · rw [Function.update_of_ne hk] at hb
        exact ⟨b, hb, rfl, rfl⟩
    · cases h with
      | root => exact hroot.symm
      | child _ ha =>
          rintro rfl
          rw [Function.update_self] at ha
          exact Option.some_ne_none _ ha.symm
  · rintro ⟨h, hne⟩
    induction h with
    | root => exact .root
    | child hi ha _ ih =>
        exact .child hi (by rw [Function.update_of_ne hne, ha]) (ih (hleaf _ _ ha))

variable [DecidableEq Name]

/-- **A new entry in a free slot** is a new entry of the tree. -/
theorem insert (h : Represents root t T) (hok : t.Ok root) (hfree : t slot = none)
    (hdir : At root t dir p) (hp : T.node p = some .dir) (hn : T.node (n :: p) = none) :
    Represents root (Function.update t slot (some ⟨dir, n, x⟩)) (T.insert n p x hp hn) := by
  have hused : ∀ {k b}, t k = some b → k ≠ slot := by
    rintro k b hk rfl
    exact Option.some_ne_none _ (hk.symm.trans hfree)
  intro q y
  change Function.update T.node (n :: p) (some x) q = some y ↔ _
  simp only [at_insert_iff hok hfree (hdir.used hok)]
  by_cases hq : q = n :: p
  · subst hq
    rw [Function.update_self]
    constructor
    · rintro heq
      obtain rfl := Option.some.inj heq
      exact ⟨slot, ⟨dir, n, x⟩, .inr ⟨rfl, p, rfl, hdir⟩, Function.update_self .., rfl⟩
    · rintro ⟨i, a, hi | ⟨rfl, -⟩, ha, rfl⟩
      · obtain ⟨b, hb⟩ := hi.used hok
        exact absurd (h.node_eq hi hb) (by rw [hn]; exact (Option.some_ne_none _).symm)
      · rw [Function.update_self] at ha
        obtain rfl := Option.some.inj ha
        rfl
  · rw [Function.update_of_ne hq, h q y]
    refine exists_congr fun i => exists_congr fun a => ?_
    constructor
    · rintro ⟨hi, ha, hx⟩
      exact ⟨.inl hi, by rw [Function.update_of_ne (hused ha), ha], hx⟩
    · rintro ⟨hi | ⟨rfl, q', rfl, hq'⟩, ha, hx⟩
      · obtain ⟨b, hb⟩ := hi.used hok
        rw [Function.update_of_ne (hused hb)] at ha
        exact ⟨hi, ha, hx⟩
      · exact absurd (congrArg (n :: ·) (hq'.path_unique hdir)) hq

/-- **The removal of a leaf** is the removal of an entry of the tree. -/
theorem erase (h : Represents root t T) (hok : t.Ok root) (hslot : At root t slot (n :: p))
    (hleaf : ∀ j b, t j = some b → b.parent ≠ slot)
    (hT : ∀ m, T.node (m :: n :: p) = none) :
    Represents root (Function.update t slot none) (T.erase n p hT) := by
  have hroot := hslot.cons_inv.1
  intro q y
  change Function.update T.node (n :: p) none q = some y ↔ _
  simp only [at_erase_iff hleaf hroot]
  by_cases hq : q = n :: p
  · subst hq
    rw [Function.update_self]
    refine iff_of_false (Option.some_ne_none y).symm ?_
    rintro ⟨i, a, ⟨hi, hne⟩, -⟩
    exact hne (hok.slot_unique hi hslot)
  · rw [Function.update_of_ne hq, h q y]
    refine exists_congr fun i => exists_congr fun a => ?_
    constructor
    · rintro ⟨hi, ha, hx⟩
      have hne : i ≠ slot := by
        rintro rfl
        exact hq (hi.path_unique hslot)
      exact ⟨⟨hi, hne⟩, by rw [Function.update_of_ne hne, ha], hx⟩
    · rintro ⟨⟨hi, hne⟩, ha, hx⟩
      rw [Function.update_of_ne hne] at ha
      exact ⟨hi, ha, hx⟩

/-- **Other data in the slot of a file** is other data at its path. -/
theorem write (h : Represents root t T) (hok : t.Ok root) (hslot : At root t slot (n :: p))
    (ha : t slot = some a) (hT : ∃ d', T.node (n :: p) = some (.file d')) :
    Represents root (Function.update t slot (some { a with node := .file d }))
      (T.write n p d hT) := by
  have hat : ∀ i q, At root (Function.update t slot (some { a with node := .file d })) i q ↔
      At root t i q := by
    intro i q
    constructor <;> intro hi <;> refine hi.congr fun k b hb => ?_ <;> by_cases hk : k = slot
    · rw [hk, Function.update_self] at hb
      obtain rfl := Option.some.inj hb
      exact ⟨a, hk ▸ ha, rfl, rfl⟩
    · rw [Function.update_of_ne hk] at hb
      exact ⟨b, hb, rfl, rfl⟩
    · rw [hk] at hb ⊢
      obtain rfl := Option.some.inj (ha.symm.trans hb)
      exact ⟨_, Function.update_self .., rfl, rfl⟩
    · exact ⟨b, by rw [Function.update_of_ne hk, hb], rfl, rfl⟩
  intro q y
  change Function.update T.node (n :: p) (some (.file d)) q = some y ↔ _
  simp only [hat]
  by_cases hq : q = n :: p
  · subst hq
    rw [Function.update_self]
    constructor
    · intro heq
      exact ⟨slot, _, hslot, Function.update_self .., Option.some.inj heq⟩
    · rintro ⟨i, b, hi, hb, rfl⟩
      obtain rfl := hok.slot_unique hi hslot
      rw [Function.update_self] at hb
      obtain rfl := Option.some.inj hb
      rfl
  · rw [Function.update_of_ne hq, h q y]
    refine exists_congr fun i => exists_congr fun b => ?_
    refine and_congr_right fun hi => ?_
    rw [Function.update_of_ne]
    rintro rfl
    exact hq (hi.path_unique hslot)

end Represents

end Forest
