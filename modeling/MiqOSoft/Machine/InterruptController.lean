import MiqOSoft.Machine.Memory

/-!
A pair of interrupt controllers of the type 8259, the second one at line 2 of the first.

* `Controller`: one controller, programmed by bytes at its command port and its data port.
* `Controller.top`: the line that it presents: a request that is neither masked nor below a line in
  service.
* `Controllers.acknowledge`: the processor takes an interrupt, and is given a vector.
* `priority`: the lines of the pair in the order in which they are served;
  `acknowledge_of_idle`: with nothing in service, the first deliverable line of that order.
-/

namespace Machine

/-- A controller has an input, so that numbers stand for them. -/
local instance neZero_inputs : NeZero 8 := ⟨by decide⟩

/-- The pair has a line, so that numbers stand for them. -/
local instance neZero_lines : NeZero 16 := ⟨by decide⟩

/-- The words of an initialisation that are still to come.  The second one is followed by a third
one unless the controller is the only one, and by a fourth one if the first one said so. -/
inductive Awaiting
  | nothing
  | second (single fourth : Bool)
  | third (fourth : Bool)
  | fourth
deriving DecidableEq

/-- A controller: the lines requested and in service, the mask, the vector of its line 0, the state
of its initialisation, and whether lines are ended automatically. -/
structure Controller where
  requested : Fin 8 → Bool
  inService : Fin 8 → Bool
  mask : Byte
  base : Byte
  awaiting : Awaiting
  autoEnd : Bool

namespace Controller

/-- The first line, in the order of their priorities, of which something holds. -/
def first (p : Fin 8 → Bool) : Option (Fin 8) := (List.finRange 8).find? p

/-- A line is no longer in service. -/
def endOf (k : Fin 8) (c : Controller) : Controller :=
  { c with inService := Function.update c.inService k false }

/-- A byte at the command port: the first word of an initialisation, which resets the controller; or
the end of an interrupt, of the first line in service or of a given one.  The other commands, which
select a register to be read or rotate the priorities, are left out. -/
def command (b : Byte) (c : Controller) : Controller :=
  if b.getLsbD 4 then
    { requested := fun _ => false
      inService := fun _ => false
      mask := 0#8
      base := c.base
      awaiting := .second (b.getLsbD 1) (b.getLsbD 0)
      autoEnd := false }
  else if b &&& 0xF8#8 = 0x20#8 then
    match first c.inService with
    | none => c
    | some k => c.endOf k
  else if b &&& 0xF8#8 = 0x60#8 then c.endOf ⟨b.toNat % 8, Nat.mod_lt _ (by decide)⟩
  else c

/-- A byte at the data port: the next word of an initialisation, or a mask. -/
def data (b : Byte) (c : Controller) : Controller :=
  match c.awaiting with
  | .nothing => { c with mask := b }
  | .second single fourth =>
      { c with
        base := b &&& 0xF8#8
        awaiting := if single then (if fourth then .fourth else .nothing) else .third fourth }
  | .third fourth => { c with awaiting := if fourth then .fourth else .nothing }
  | .fourth => { c with autoEnd := b.getLsbD 1, awaiting := .nothing }

/-- A request comes in at a line. -/
def raise (k : Fin 8) (c : Controller) : Controller :=
  { c with requested := Function.update c.requested k true }

/-- The line that is presented, where `requests` are the lines at which there is a request. -/
def top (requests : Fin 8 → Bool) (c : Controller) : Option (Fin 8) :=
  first fun k => requests k && !c.mask.getLsbD k && decide (∀ j ≤ k, c.inService j = false)

/-- The line is taken into service. -/
def take (k : Fin 8) (c : Controller) : Controller :=
  { c with
    requested := Function.update c.requested k false
    inService := if c.autoEnd then c.inService else Function.update c.inService k true }

/-- The vector of a line. -/
def vector (k : Fin 8) (c : Controller) : Byte := c.base + BitVec.ofNat 8 k

end Controller

/-- The pair. -/
structure Controllers where
  master : Controller
  slave : Controller

namespace Controllers

/-- The requests at the first controller: those of its own lines and, at line 2, whether the second
one presents a line. -/
def masterRequests (p : Controllers) : Fin 8 → Bool :=
  fun k => if k = 2 then (p.slave.top p.slave.requested).isSome else p.master.requested k

/-- The first controller's line is taken into service, and with line 2 the one that the second
controller presents, or its line 7 if there is none any more. -/
def accept (k : Fin 8) (p : Controllers) : Byte × Controllers :=
  if k = 2 then
    match p.slave.top p.slave.requested with
    | none => (p.slave.vector 7, { p with master := p.master.take 2 })
    | some j => (p.slave.vector j, ⟨p.master.take 2, p.slave.take j⟩)
  else (p.master.vector k, { p with master := p.master.take k })

/-- The processor takes an interrupt.  If no line is presented any more, it is given the vector of
line 7. -/
def acknowledge (p : Controllers) : Byte × Controllers :=
  match p.master.top p.masterRequests with
  | none => (p.master.vector 7, p)
  | some k => p.accept k

/-- A request comes in at one of the sixteen lines of the pair. -/
def raise (i : Fin 16) (p : Controllers) : Controllers :=
  if h : (i : ℕ) < 8 then { p with master := p.master.raise ⟨i, h⟩ }
  else { p with slave := p.slave.raise ⟨i - 8, by omega⟩ }

end Controllers

/-! ### The order of the lines -/

/-- A line of the first controller. -/
def masterLine (k : Fin 8) : Fin 16 := ⟨k, by omega⟩

/-- A line of the second controller. -/
def slaveLine (k : Fin 8) : Fin 16 := ⟨8 + k, by omega⟩

/-- The lines in the order of their priorities. -/
def priority : List (Fin 16) := [0, 1, 8, 9, 10, 11, 12, 13, 14, 15, 3, 4, 5, 6, 7]

namespace Controllers

/-- There is a request at a line. -/
def requested (p : Controllers) (i : Fin 16) : Bool :=
  if h : (i : ℕ) < 8 then p.master.requested ⟨i, h⟩ else p.slave.requested ⟨i - 8, by omega⟩

/-- A line is masked: those of the second controller also by the mask of line 2 of the first. -/
def masked (p : Controllers) (i : Fin 16) : Bool :=
  if (i : ℕ) < 8 then p.master.mask.getLsbD i
  else p.slave.mask.getLsbD (i - 8) || p.master.mask.getLsbD 2

/-- A request at a line that is not masked. -/
def deliverable (p : Controllers) (i : Fin 16) : Bool := p.requested i && !p.masked i

/-- Nothing is in service, in either controller. -/
def Idle (p : Controllers) : Prop :=
  (∀ k, p.master.inService k = false) ∧ ∀ k, p.slave.inService k = false

/-- A line is taken into service: one of the second controller together with line 2 of the first. -/
def serve (i : Fin 16) (p : Controllers) : Byte × Controllers :=
  if h : (i : ℕ) < 8 then
    (p.master.vector ⟨i, h⟩, { p with master := p.master.take ⟨i, h⟩ })
  else
    (p.slave.vector ⟨i - 8, by omega⟩, ⟨p.master.take 2, p.slave.take ⟨i - 8, by omega⟩⟩)

end Controllers

/-- With nothing in service, the first line requested that is not masked is presented. -/
lemma top_of_idle {c : Controller} (h : ∀ k, c.inService k = false) (requests : Fin 8 → Bool) :
    c.top requests = Controller.first fun k => requests k && !c.mask.getLsbD k := by
  rw [Controller.top]
  simp [h]

lemma first_eq (q : Fin 8 → Bool) : Controller.first q =
    (([0, 1] : List (Fin 8)).find? q).or
      (if q 2 then some 2 else ([3, 4, 5, 6, 7] : List (Fin 8)).find? q) := by
  have hlist : List.finRange 8 = [0, 1] ++ (2 :: [3, 4, 5, 6, 7]) := rfl
  have htail : ∀ ks : List (Fin 8), (2 :: ks).find? q = if q 2 then some 2 else ks.find? q := by
    intro ks
    rw [List.find?_cons]
    cases q 2 <;> rfl
  rw [Controller.first, hlist, List.find?_append, htail]

lemma find_priority (d : Fin 16 → Bool) : priority.find? d =
    ((([0, 1] : List (Fin 8)).find? (d ∘ masterLine)).map masterLine).or
      (((Controller.first (d ∘ slaveLine)).map slaveLine).or
        ((([3, 4, 5, 6, 7] : List (Fin 8)).find? (d ∘ masterLine)).map masterLine)) := by
  have hlist : priority = [0, 1].map masterLine ++
      ((List.finRange 8).map slaveLine ++ [3, 4, 5, 6, 7].map masterLine) := rfl
  rw [hlist, List.find?_append, List.find?_append, List.find?_map, List.find?_map, List.find?_map,
    Controller.first]

section Idle

variable {p : Controllers}

lemma serve_masterLine (k : Fin 8) (p : Controllers) :
    p.serve (masterLine k) = (p.master.vector k, { p with master := p.master.take k }) :=
  dif_pos k.isLt

lemma serve_slaveLine (k : Fin 8) (p : Controllers) :
    p.serve (slaveLine k) = (p.slave.vector k, ⟨p.master.take 2, p.slave.take k⟩) := by
  have hk : (⟨(slaveLine k : ℕ) - 8, by omega⟩ : Fin 8) = k :=
    Fin.ext (Nat.add_sub_cancel_left 8 k)
  rw [Controllers.serve, dif_neg (by simp [slaveLine])]
  simp only [hk]

lemma deliverable_masterLine (k : Fin 8) (p : Controllers) :
    p.deliverable (masterLine k) = (p.master.requested k && !p.master.mask.getLsbD k) := by
  have hk : (masterLine k : ℕ) < 8 := k.isLt
  rw [Controllers.deliverable, Controllers.requested, Controllers.masked, dif_pos hk, if_pos hk]
  rfl

lemma deliverable_slaveLine (k : Fin 8) (p : Controllers) :
    p.deliverable (slaveLine k) =
      (p.slave.requested k && !p.slave.mask.getLsbD k && !p.master.mask.getLsbD 2) := by
  have hk : ¬(slaveLine k : ℕ) < 8 := by simp [slaveLine]
  have hsub : (slaveLine k : ℕ) - 8 = k := Nat.add_sub_cancel_left 8 k
  rw [Controllers.deliverable, Controllers.requested, Controllers.masked, dif_neg hk, if_neg hk]
  simp only [hsub, Bool.not_or, Bool.and_assoc]

lemma accept_of_ne {k : Fin 8} (hk : k ≠ 2) (p : Controllers) :
    p.accept k = p.serve (masterLine k) := by
  rw [Controllers.accept, if_neg hk, serve_masterLine]

lemma accept_two {j : Fin 8} (hj : p.slave.top p.slave.requested = some j) :
    p.accept 2 = p.serve (slaveLine j) := by
  rw [Controllers.accept, if_pos rfl, hj, serve_slaveLine]

/-- The line that the first controller presents: its own lines are around those of the second. -/
lemma masterTop_of_idle (hp : p.Idle) : p.master.top p.masterRequests =
    (([0, 1] : List (Fin 8)).find? (p.deliverable ∘ masterLine)).or
      (if (p.slave.top p.slave.requested).isSome && !p.master.mask.getLsbD 2 then some 2
        else ([3, 4, 5, 6, 7] : List (Fin 8)).find? (p.deliverable ∘ masterLine)) := by
  have hown : ∀ k ≠ 2, (p.masterRequests k && !p.master.mask.getLsbD k) =
      (p.deliverable ∘ masterLine) k := by
    intro k hk
    rw [Function.comp_apply, deliverable_masterLine, Controllers.masterRequests, if_neg hk]
  have hfront : ([0, 1] : List (Fin 8)).find?
      (fun k => p.masterRequests k && !p.master.mask.getLsbD k) =
        [0, 1].find? (p.deliverable ∘ masterLine) :=
    List.find?_congr fun k hk => hown k (by rintro rfl; exact absurd hk (by decide))
  have hback : ([3, 4, 5, 6, 7] : List (Fin 8)).find?
      (fun k => p.masterRequests k && !p.master.mask.getLsbD k) =
        [3, 4, 5, 6, 7].find? (p.deliverable ∘ masterLine) :=
    List.find?_congr fun k hk => hown k (by rintro rfl; exact absurd hk (by decide))
  rw [top_of_idle hp.1, first_eq, hfront, hback]
  rfl

/-- The first deliverable line of the second controller. -/
lemma slaveFirst_of_idle (hp : p.Idle) : Controller.first (p.deliverable ∘ slaveLine) =
    if p.master.mask.getLsbD 2 then none else p.slave.top p.slave.requested := by
  have hbelow : p.deliverable ∘ slaveLine = fun k =>
      p.slave.requested k && !p.slave.mask.getLsbD k && !p.master.mask.getLsbD 2 :=
    funext fun k => deliverable_slaveLine k p
  rw [hbelow, top_of_idle hp.2]
  cases p.master.mask.getLsbD 2 <;> simp [Controller.first]

/-- **With nothing in service**, the processor is given the first line of the order that is
requested and not masked, or the vector of line 7 if there is none. -/
theorem acknowledge_of_idle (hp : p.Idle) : p.acknowledge =
    match priority.find? p.deliverable with
    | some i => p.serve i
    | none => (p.master.vector 7, p) := by
  have hne : ∀ {ks : List (Fin 8)} {k}, (2 : Fin 8) ∉ ks →
      ks.find? (p.deliverable ∘ masterLine) = some k → k ≠ 2 := by
    rintro ks k hks hk rfl
    exact hks (List.mem_of_find?_eq_some hk)
  rw [Controllers.acknowledge, masterTop_of_idle hp, find_priority, slaveFirst_of_idle hp]
  cases hfront : ([0, 1] : List (Fin 8)).find? (p.deliverable ∘ masterLine) with
  | some k => exact accept_of_ne (hne (by decide) hfront) p
  | none =>
      by_cases hslave : (p.slave.top p.slave.requested).isSome ∧ p.master.mask.getLsbD 2 = false
      · obtain ⟨hsome, hmask⟩ := hslave
        obtain ⟨j, hj⟩ := Option.isSome_iff_exists.mp hsome
        simp only [hj, hmask, Option.map_none, Option.none_or]
        exact accept_two hj
      · have hnone : (if p.master.mask.getLsbD 2 then none
            else p.slave.top p.slave.requested) = none := by
          cases hmask : p.master.mask.getLsbD 2 with
          | true => rfl
          | false => exact Option.not_isSome_iff_eq_none.mp fun h => hslave ⟨h, hmask⟩
        rw [hnone, if_neg (by simpa using hslave)]
        cases hback : ([3, 4, 5, 6, 7] : List (Fin 8)).find? (p.deliverable ∘ masterLine) with
        | none => rfl
        | some k => exact accept_of_ne (hne (by decide) hback) p

end Idle

end Machine
