import MiqOSoft.Editing.Line
import MiqOSoft.Kernel.Printf

/-!
The message log of the kernel's `main.c`: `kernel_add_message`, `display_kernel_messages` and
`dmesg_clear`.

* `Dmesg`: the records of `ultra_messages`, and their number.
* `copyComponent_reads`, `copyMessage_reads`: what the two copying loops leave in a record.
* `Dmesg.Logs d ms`: the log holds the first of the messages `ms`, each cut at 49 characters.
* `kernelAddMessage_logs`, `runDmesg_logs`: it does so after every sequence of calls.
* `displayKernelMessages_eq`: the text that is printed then.
* `display_iff`: all of it is right as long as there are fewer than 20 messages.
-/

namespace MiqOSoft

open Machine Editing

/-- `SIMPLE_MSG_COUNT`. -/
abbrev SIMPLE_MSG_COUNT : ℕ := 20

/-- `SIMPLE_MSG_LEN`. -/
abbrev SIMPLE_MSG_LEN : ℕ := 50

/-- `ultra_simple_msg_t`. -/
structure SimpleMsg where
  msg : Vector Byte SIMPLE_MSG_LEN
  valid : Word

/-- `ultra_messages`, `ultra_msg_idx` and `ultra_initialized`. -/
structure Dmesg where
  messages : Vector SimpleMsg SIMPLE_MSG_COUNT
  idx : ℕ
  initialized : Bool

namespace Dmesg

/-- A record of zeros. -/
def noMessage : SimpleMsg := ⟨Vector.replicate SIMPLE_MSG_LEN 0#8, 0#32⟩

/-- The variables as the kernel finds them. -/
def start : Dmesg := ⟨Vector.replicate SIMPLE_MSG_COUNT noMessage, 0, false⟩

end Dmesg

/-! ### Adding a message -/

/-- A letter or a digit. -/
def isAlnum (c : Byte) : Bool :=
  ((ch 'a').sle c && c.sle (ch 'z')) || ((ch 'A').sle c && c.sle (ch 'Z')) ||
    ((ch '0').sle c && c.sle (ch '9'))

/-- `entry->msg` and `pos`. -/
structure Draft where
  msg : Vector Byte SIMPLE_MSG_LEN
  pos : ℕ

namespace Draft

/-- `entry->msg[pos++] = c`. -/
def add (r : Draft) (c : Byte) : Option Draft := do
  let msg ← store r.msg r.pos c
  some ⟨msg, r.pos + 1⟩

/-- The loop over the component. -/
def copyComponent : List Byte → ℕ → Draft → Option Draft
  | [], _, r => some r
  | c :: component, i, r =>
      if i < 12 ∧ r.pos < SIMPLE_MSG_LEN - 3 then do
        let r ← if isAlnum c then r.add c else some r
        copyComponent component (i + 1) r
      else some r

/-- The separator. -/
def addSeparator (r : Draft) : Option Draft :=
  if r.pos < SIMPLE_MSG_LEN - 2 then do
    let r ← r.add (ch ':')
    r.add (ch ' ')
  else some r

/-- The loop over the message. -/
def copyMessage : List Byte → Draft → Option Draft
  | [], r => some r
  | c :: message, r =>
      if r.pos < SIMPLE_MSG_LEN - 1 then do
        let r ←
          if isAlnum c ∨ c = ch ' ' ∨ c = ch '.' ∨ c = ch '-' ∨ c = ch '_' then r.add c
          else if c = ch '/' ∨ c = ch '\\' then r.add (ch '/')
          else some r
        copyMessage message r
      else some r

/-- The part for the component, if there is one. -/
def writeComponent (component : Option CString) (r : Draft) : Option Draft :=
  match component with
  | none => some r
  | some component => do
      let r ← copyComponent component.chars 0 r
      r.addSeparator

/-- The part for the message, if there is one. -/
def writeText (message : Option CString) (r : Draft) : Option Draft :=
  match message with
  | none => some r
  | some message => copyMessage message.chars r

end Draft

/-- The record of a message, which is cleared first. -/
def writeMessage (component message : Option CString) : Option (Vector Byte SIMPLE_MSG_LEN) := do
  let r ← Draft.writeComponent component ⟨Vector.replicate SIMPLE_MSG_LEN 0#8, 0⟩
  let r ← Draft.writeText message r
  store r.msg r.pos 0#8

/-- `kernel_add_message`, which is undefined where it stores outside of a record.  Nothing uses
`level`. -/
def kernelAddMessage (_level : Byte) (component message : Option CString) (d : Dmesg) :
    Option Dmesg :=
  let d := if d.initialized then d else { Dmesg.start with initialized := true }
  if h : d.idx < SIMPLE_MSG_COUNT then do
    let msg ← writeMessage component message
    some { d with messages := d.messages.set d.idx ⟨msg, 12345#32⟩, idx := d.idx + 1 }
  else some d

/-! ### Displaying and clearing -/

/-- `puts` of a text without NUL. -/
def putsText (text out : List Byte) : List Byte := text.foldl (fun out c => fputc c out) out

/-- The number of an entry, in two digits. -/
def displayIndex (i : ℕ) (out : List Byte) : List Byte :=
  if i < 10 then fputc (ch '0' + BitVec.ofNat 8 i) (fputc (ch '0') out)
  else fputc (ch '0' + BitVec.ofNat 8 (i - 10)) (fputc (ch '1') out)

/-- The characters that are displayed as they are. -/
def isShown (c : Byte) : Bool :=
  isAlnum c || decide (c = ch ' ' ∨ c = ch '.' ∨ c = ch ':' ∨ c = ch '-' ∨ c = ch '_' ∨ c = ch '/')

/-- The loop over `entry->msg`, which ends at the NUL. -/
def displayText (msg : Vector Byte SIMPLE_MSG_LEN) (out : List Byte) : List Byte :=
  (textOf msg.toList).foldl (fun out c => fputc (if isShown c then c else ch '?') out) out

/-- A turn of the loop over the entries. -/
def displayEntry (i : ℕ) (entry : SimpleMsg) (out : List Byte) : List Byte :=
  if entry.valid ≠ 12345#32 then putsText (ascii "Invalid entry") out
  else fputc 10#8 (displayText entry.msg (fputc (ch ' ') (fputc (ch ':') (displayIndex i out))))

/-- The loop over the entries. -/
def displayEntries : List SimpleMsg → ℕ → List Byte → List Byte
  | [], _, out => out
  | entry :: entries, i, out => displayEntries entries (i + 1) (displayEntry i entry out)

/-- The number of entries in the last line. -/
def displayCount (n : ℕ) (out : List Byte) : List Byte :=
  if n < 10 then fputc (ch '0' + BitVec.ofNat 8 n) out
  else fputc (ch '0' + BitVec.ofNat 8 (n - 10)) (fputc (ch '1') out)

/-- `display_kernel_messages`: the characters given to `putc` and `puts`. -/
def displayKernelMessages (d : Dmesg) (out : List Byte) : List Byte :=
  if !d.initialized then putsText (ascii "dmesg not initialized") out
  else if d.idx = 0 then putsText (ascii "No kernel messages recorded") out
  else
    let out := putsText (ascii "=== Kernel Messages ===\n") out
    let out := displayEntries (d.messages.toList.take d.idx) 0 out
    let out := putsText (ascii "=== End Messages (") out
    let out := displayCount d.idx out
    putsText (ascii " shown) ===\n") out

/-- `dmesg_clear`. -/
def dmesgClear (d : Dmesg) (out : List Byte) : Dmesg × List Byte :=
  ({ d with messages := Vector.replicate SIMPLE_MSG_COUNT Dmesg.noMessage, idx := 0 },
    putsText (ascii "dmesg: Message buffer cleared") out)

/-! ### Sequences of calls -/

/-- A component and a message. -/
abbrev Message := Option CString × Option CString

/-- The calls that change the log. -/
inductive DmesgCall
  | add (level : Byte) (m : Message)
  | clear

/-- A call. -/
def DmesgCall.run : DmesgCall → Dmesg → Option Dmesg
  | add level m, d => kernelAddMessage level m.1 m.2 d
  | clear, d => some (dmesgClear d []).1

/-- A sequence of calls. -/
def runDmesg (calls : List DmesgCall) (d : Dmesg) : Option Dmesg :=
  calls.foldlM (fun d call => call.run d) d

/-! ### What the log is for -/

/-- The messages added since the last clear, if `ms` were added before the call. -/
def DmesgCall.pending (ms : List Message) : DmesgCall → List Message
  | add _ m => ms ++ [m]
  | clear => []

/-- The messages added since the last clear. -/
def pending (calls : List DmesgCall) : List Message := calls.foldl DmesgCall.pending []

/-- What is kept of a component: the letters and digits among its first 12 characters. -/
def componentText (component : CString) : List Byte :=
  (component.chars.take 12).filter isAlnum ++ ascii ": "

/-- What is kept of a character of the message. -/
def messageChar (c : Byte) : Option Byte :=
  if isAlnum c ∨ c ∈ ascii " .-_" then some c
  else if c ∈ ascii "/\\" then some (ch '/')
  else none

/-- The stored text of a message. -/
def storedText (m : Message) : List Byte :=
  (m.1.elim [] componentText ++ m.2.elim [] fun s => s.chars.filterMap messageChar).take
    (SIMPLE_MSG_LEN - 1)

/-- A number below 100 in two digits. -/
def twoDigits (i : ℕ) : List Byte := [hexChars.getD (i / 10) 0#8, hexChars.getD (i % 10) 0#8]

/-- The lines of the messages. -/
def entryLines (ms : List Message) (i : ℕ) : List Byte :=
  (ms.zipIdx i).flatMap fun m => twoDigits m.2 ++ ascii ": " ++ storedText m.1 ++ [10#8]

/-- The first messages with their numbers, between a first line and one with the number of
messages, which is written as `count`. -/
def logText (count : List Byte) (ms : List Message) : List Byte :=
  ascii "=== Kernel Messages ===\n" ++ entryLines (ms.take SIMPLE_MSG_COUNT) 0 ++
    ascii "=== End Messages (" ++ count ++ ascii " shown) ===\n"

/-- The display of the messages, with their number in decimal. -/
def rightText (ms : List Message) : List Byte :=
  logText (digitText 10 (min SIMPLE_MSG_COUNT ms.length)) ms

/-! ### The stored text -/

/-- The record holds the text, and `pos` stands behind it. -/
def Draft.Reads (r : Draft) (text : List Byte) : Prop :=
  Holds r.msg 0#8 text ∧ r.pos = text.length

namespace Draft

variable {r : Draft} {text : List Byte}

lemma msgLen_eq : SIMPLE_MSG_LEN = 50 := rfl

lemma add_reads (h : r.Reads text) (hroom : text.length < SIMPLE_MSG_LEN) (c : Byte) :
    ∃ r', r.add c = some r' ∧ r'.Reads (text ++ [c]) := by
  obtain ⟨msg, hstore, hholds⟩ := holds_snoc h.1 hroom c
  refine ⟨⟨msg, r.pos + 1⟩, ?_, hholds, ?_⟩
  · rw [add, h.2, hstore]
    rfl
  · rw [h.2, List.length_append, List.length_singleton]

/-- **The component**: no more than 12 characters are looked at, so there is room for each. -/
theorem copyComponent_reads (component : List Byte) {i : ℕ} (h : r.Reads text)
    (hlen : text.length ≤ i) (hi : i ≤ 12) :
    ∃ r', copyComponent component i r = some r' ∧
      r'.Reads (text ++ (component.take (12 - i)).filter isAlnum) := by
  have hsize := msgLen_eq
  induction component generalizing i r text with
  | nil => exact ⟨r, rfl, by simpa using h⟩
  | cons c component ih =>
      by_cases hlt : i < 12
      · have hroom : r.pos < SIMPLE_MSG_LEN - 3 := by
          rw [h.2]
          omega
        have htake : 12 - i = 12 - (i + 1) + 1 := by omega
        rw [copyComponent, if_pos ⟨hlt, hroom⟩, htake, List.take_succ_cons]
        by_cases hc : isAlnum c = true
        · obtain ⟨r', hadd, hreads⟩ := add_reads h (by omega) c
          have hlen' : (text ++ [c]).length ≤ i + 1 := by
            rw [List.length_append, List.length_singleton]
            omega
          obtain ⟨r'', hrun, hfinal⟩ := ih hreads hlen' hlt
          refine ⟨r'', ?_, ?_⟩
          · rw [if_pos hc, hadd]
            exact hrun
          · rw [List.filter_cons_of_pos hc, ← List.singleton_append, ← List.append_assoc]
            exact hfinal
        · obtain ⟨r'', hrun, hfinal⟩ := ih h (by omega) hlt
          refine ⟨r'', ?_, ?_⟩
          · rw [if_neg hc]
            exact hrun
          · rw [List.filter_cons_of_neg hc]
            exact hfinal
      · have htake : 12 - i = 0 := by omega
        refine ⟨r, ?_, ?_⟩
        · rw [copyComponent, if_neg fun hboth => hlt hboth.1]
        · rw [htake, List.take_zero, List.filter_nil, List.append_nil]
          exact h

lemma addSeparator_reads (h : r.Reads text) (hlen : text.length ≤ 12) :
    ∃ r', r.addSeparator = some r' ∧ r'.Reads (text ++ ascii ": ") := by
  have hsize := msgLen_eq
  obtain ⟨r', hcolon, hreads⟩ := add_reads h (by omega) (ch ':')
  have hroom : (text ++ [ch ':']).length < SIMPLE_MSG_LEN := by
    rw [List.length_append, List.length_singleton]
    omega
  obtain ⟨r'', hspace, hfinal⟩ := add_reads hreads hroom (ch ' ')
  have hpos : r.pos < SIMPLE_MSG_LEN - 2 := by
    rw [h.2]
    omega
  refine ⟨r'', ?_, ?_⟩
  · rw [addSeparator, if_pos hpos, hcolon]
    exact hspace
  · rwa [List.append_assoc] at hfinal

/-- What a turn of the loop over the message adds. -/
lemma copyMessage_cons (c : Byte) (message : List Byte) (hroom : r.pos < SIMPLE_MSG_LEN - 1) :
    copyMessage (c :: message) r =
      ((messageChar c).elim (some r) r.add).bind (copyMessage message) := by
  have hplain : c ∈ ascii " .-_" ↔ c = ch ' ' ∨ c = ch '.' ∨ c = ch '-' ∨ c = ch '_' := by
    simp [ascii, ch]
  have hslash : c ∈ ascii "/\\" ↔ c = ch '/' ∨ c = ch '\\' := by
    simp [ascii, ch]
  rw [copyMessage, if_pos hroom, messageChar]
  simp only [hplain, hslash]
  split_ifs <;> rfl

/-- **The message** fills the record up to its last place. -/
theorem copyMessage_reads (message : List Byte) (h : r.Reads text)
    (hlen : text.length ≤ SIMPLE_MSG_LEN - 1) :
    ∃ r', copyMessage message r = some r' ∧
      r'.Reads ((text ++ message.filterMap messageChar).take (SIMPLE_MSG_LEN - 1)) := by
  induction message generalizing r text with
  | nil =>
      refine ⟨r, rfl, ?_⟩
      rwa [List.filterMap_nil, List.append_nil, List.take_of_length_le hlen]
  | cons c message ih =>
      by_cases hroom : r.pos < SIMPLE_MSG_LEN - 1
      · rw [copyMessage_cons c message hroom]
        cases hc : messageChar c with
        | none =>
            rw [List.filterMap_cons_none hc]
            exact ih h hlen
        | some c' =>
            rw [h.2] at hroom
            obtain ⟨r', hadd, hreads⟩ := add_reads h (by omega) c'
            have hlen' : (text ++ [c']).length ≤ SIMPLE_MSG_LEN - 1 := by
              rw [List.length_append, List.length_singleton]
              omega
            obtain ⟨r'', hrun, hfinal⟩ := ih hreads hlen'
            refine ⟨r'', ?_, ?_⟩
            · rw [Option.elim_some, hadd]
              exact hrun
            · rw [List.filterMap_cons_some hc, ← List.singleton_append, ← List.append_assoc]
              exact hfinal
      · refine ⟨r, by rw [copyMessage, if_neg hroom], ?_⟩
        rw [h.2] at hroom
        rwa [List.take_append_of_le_length (by omega), List.take_of_length_le hlen]

/-- A component leaves room for the message. -/
lemma writeComponent_reads (component : Option CString) (h : r.Reads []) :
    ∃ r', writeComponent component r = some r' ∧ r'.Reads (component.elim [] componentText) ∧
      (component.elim [] componentText).length ≤ SIMPLE_MSG_LEN - 1 := by
  cases component with
  | none => exact ⟨r, rfl, h, Nat.zero_le _⟩
  | some s =>
      obtain ⟨r', hcopy, hreads⟩ := copyComponent_reads s.chars h le_rfl (Nat.zero_le 12)
      have hfilter : ((s.chars.take 12).filter isAlnum).length ≤ 12 :=
        (List.length_filter_le _ _).trans (List.length_take_le _ _)
      obtain ⟨r'', hseparator, hfinal⟩ := addSeparator_reads hreads hfilter
      refine ⟨r'', ?_, hfinal, ?_⟩
      · exact Option.bind_eq_some_iff.mpr ⟨r', hcopy, hseparator⟩
      · have hsize := msgLen_eq
        have htwo : (ascii ": ").length = 2 := by decide
        rw [Option.elim_some, componentText, List.length_append, htwo]
        omega

lemma writeText_reads (message : Option CString) (h : r.Reads text)
    (hlen : text.length ≤ SIMPLE_MSG_LEN - 1) :
    ∃ r', writeText message r = some r' ∧
      r'.Reads ((text ++ message.elim [] fun s => s.chars.filterMap messageChar).take
        (SIMPLE_MSG_LEN - 1)) := by
  cases message with
  | none =>
      refine ⟨r, rfl, ?_⟩
      rwa [Option.elim_none, List.append_nil, List.take_of_length_le hlen]
  | some s => exact copyMessage_reads s.chars h hlen

end Draft

lemma length_storedText_le (m : Message) : (storedText m).length ≤ SIMPLE_MSG_LEN - 1 :=
  List.length_take_le _ _

/-- Every character that is stored is displayed as it is. -/
lemma isShown_of_mem_storedText {m : Message} {c : Byte} (hc : c ∈ storedText m) :
    isShown c = true := by
  have halnum : ∀ c, isAlnum c = true → isShown c = true := fun c h => by rw [isShown, h]; rfl
  rcases List.mem_append.mp (List.mem_of_mem_take hc) with hcomponent | hmessage
  · cases hm : m.1 with
    | none =>
        rw [hm] at hcomponent
        exact absurd hcomponent List.not_mem_nil
    | some s =>
        rw [hm, Option.elim_some, componentText] at hcomponent
        rcases List.mem_append.mp hcomponent with hfilter | hseparator
        · exact halnum c (List.mem_filter.mp hfilter).2
        · exact (by decide : ∀ c ∈ ascii ": ", isShown c = true) c hseparator
  · cases hm : m.2 with
    | none =>
        rw [hm] at hmessage
        exact absurd hmessage List.not_mem_nil
    | some s =>
        rw [hm, Option.elim_some] at hmessage
        obtain ⟨a, -, ha⟩ := List.mem_filterMap.mp hmessage
        rw [messageChar] at ha
        split_ifs at ha with hplain hslash
        · obtain rfl := Option.some.inj ha
          rcases hplain with hplain | hplain
          · exact halnum a hplain
          · exact (by decide : ∀ c ∈ ascii " .-_", isShown c = true) a hplain
        · obtain rfl := Option.some.inj ha
          decide

lemma zero_notMem_storedText (m : Message) : 0#8 ∉ storedText m := fun h =>
  absurd (isShown_of_mem_storedText h) (by decide)

/-- **The record of a message** holds its stored text and a NUL, whatever the strings are. -/
theorem writeMessage_holds (m : Message) :
    ∃ msg, writeMessage m.1 m.2 = some msg ∧ Holds msg 0#8 (storedText m) := by
  have hsize := Draft.msgLen_eq
  have hempty : Draft.Reads ⟨Vector.replicate SIMPLE_MSG_LEN 0#8, 0⟩ [] := ⟨Holds.replicate, rfl⟩
  obtain ⟨r, hcomponent, hreads, hlen⟩ := Draft.writeComponent_reads m.1 hempty
  obtain ⟨r', htext, hreads'⟩ := Draft.writeText_reads m.2 hreads hlen
  have hroom : (storedText m).length < SIMPLE_MSG_LEN := by
    have hle := length_storedText_le m
    omega
  refine ⟨_, ?_, hreads'.1.set_length hroom⟩
  simp only [writeMessage, hcomponent, htext, hreads'.2, Option.bind_eq_bind, Option.bind_some]
  exact store_of_lt _ _ hroom

/-! ### The log after a sequence of calls -/

/-- An entry holds a message. -/
def SimpleMsg.Shows (entry : SimpleMsg) (m : Message) : Prop :=
  entry.valid = 12345#32 ∧ Holds entry.msg 0#8 (storedText m)

/-- The log holds the first of the messages. -/
structure Dmesg.Logs (d : Dmesg) (ms : List Message) : Prop where
  idx : d.idx = min SIMPLE_MSG_COUNT ms.length
  init : d.initialized = false → ms = []
  entries : List.Forall₂ SimpleMsg.Shows (d.messages.toList.take d.idx)
    (ms.take SIMPLE_MSG_COUNT)

lemma Dmesg.logs_nil {d : Dmesg} (hidx : d.idx = 0) : d.Logs [] where
  idx := hidx
  init _ := rfl
  entries := by
    rw [hidx]
    exact List.Forall₂.nil

/-- The record of one more message. -/
lemma Dmesg.Logs.push {d : Dmesg} {ms : List Message} (h : d.Logs ms)
    (hready : d.initialized = true) (hroom : d.idx < SIMPLE_MSG_COUNT) {m : Message}
    {entry : SimpleMsg} (hentry : entry.Shows m) :
    Dmesg.Logs { d with messages := d.messages.set d.idx entry, idx := d.idx + 1 }
      (ms ++ [m]) := by
  have hidx : d.idx = ms.length := by
    have hmin := h.idx
    omega
  have hlen : (ms ++ [m]).length = ms.length + 1 := List.length_append
  have hsize : d.idx < (d.messages.toList.set d.idx entry).length := by
    rwa [List.length_set, Vector.length_toList]
  refine ⟨?_, ?_, ?_⟩
  · rw [hlen]
    exact (by omega : d.idx + 1 = min SIMPLE_MSG_COUNT (ms.length + 1))
  · intro hnot
    exact absurd (hready.symm.trans hnot) (Ne.symm Bool.false_ne_true)
  · have hold := h.entries
    have hset : (d.messages.set d.idx entry).toList.take (d.idx + 1) =
        d.messages.toList.take d.idx ++ [entry] := by
      rw [Vector.toList_set, List.take_succ_eq_append_getElem hsize, List.take_set_of_le le_rfl,
        List.getElem_set_self]
    have hms : ms.take SIMPLE_MSG_COUNT = ms := List.take_of_length_le (by omega)
    have hall : (ms ++ [m]).take SIMPLE_MSG_COUNT = ms ++ [m] :=
      List.take_of_length_le (by omega)
    rw [hms] at hold
    rw [hset, hall]
    exact List.rel_append hold (List.Forall₂.cons hentry List.Forall₂.nil)

/-- **A message is added** behind the others, or dropped if there are 20 of them. -/
theorem kernelAddMessage_logs {d : Dmesg} {ms : List Message} (h : d.Logs ms) (level : Byte)
    (m : Message) : ∃ d', kernelAddMessage level m.1 m.2 d = some d' ∧ d'.Logs (ms ++ [m]) := by
  -- the first call sets the log up, and changes nothing that is known of it
  obtain ⟨e, he, hready, hlogs⟩ : ∃ e : Dmesg,
      (if d.initialized then d else { Dmesg.start with initialized := true }) = e ∧
        e.initialized = true ∧ e.Logs ms := by
    by_cases hinit : d.initialized = true
    · exact ⟨d, if_pos hinit, hinit, h⟩
    · obtain rfl := h.init (Bool.eq_false_of_not_eq_true hinit)
      exact ⟨_, if_neg hinit, rfl, Dmesg.logs_nil rfl⟩
  rw [kernelAddMessage, he]
  by_cases hroom : e.idx < SIMPLE_MSG_COUNT
  · obtain ⟨msg, hwrite, hholds⟩ := writeMessage_holds m
    have hentry : SimpleMsg.Shows ⟨msg, 12345#32⟩ m := ⟨rfl, hholds⟩
    refine ⟨_, ?_, hlogs.push hready hroom hentry⟩
    simp only [dif_pos hroom, hwrite, Option.bind_eq_bind, Option.bind_some]
  · have hlen : SIMPLE_MSG_COUNT ≤ ms.length := by
      have hmin := hlogs.idx
      omega
    refine ⟨e, dif_neg hroom, ?_, fun hnot => ?_, ?_⟩
    · rw [hlogs.idx, List.length_append, List.length_singleton]
      omega
    · rw [hready] at hnot
      exact absurd hnot Bool.noConfusion
    · rw [List.take_append_of_le_length hlen]
      exact hlogs.entries

/-- **After every sequence of calls** the log holds the messages that are pending. -/
theorem runDmesg_logs (calls : List DmesgCall) :
    ∃ d, runDmesg calls Dmesg.start = some d ∧ d.Logs (pending calls) := by
  suffices hrun : ∀ (d : Dmesg) (ms : List Message), d.Logs ms →
      ∃ d', runDmesg calls d = some d' ∧ d'.Logs (calls.foldl DmesgCall.pending ms) from
    hrun Dmesg.start [] (Dmesg.logs_nil rfl)
  induction calls with
  | nil => exact fun d ms h => ⟨d, rfl, h⟩
  | cons call calls ih =>
      intro d ms h
      obtain ⟨d', hcall, hlogs⟩ : ∃ d', call.run d = some d' ∧ d'.Logs (call.pending ms) := by
        cases call with
        | add level m => exact kernelAddMessage_logs h level m
        | clear => exact ⟨_, rfl, Dmesg.logs_nil rfl⟩
      obtain ⟨d'', hrun, hfinal⟩ := ih d' _ hlogs
      refine ⟨d'', ?_, hfinal⟩
      rw [runDmesg, List.foldlM_cons, hcall]
      exact hrun

/-! ### The display -/

lemma putsText_eq (text out : List Byte) : putsText text out = out ++ text := foldl_fputc text out

/-- The numbers of the entries are right. -/
lemma displayIndex_eq {i : ℕ} (hi : i < SIMPLE_MSG_COUNT) (out : List Byte) :
    displayIndex i out = out ++ twoDigits i := by
  have hdigits : ∀ i < 20, displayIndex i [] = twoDigits i := by decide
  rw [← hdigits i hi, displayIndex, displayIndex]
  split_ifs <;> simp only [fputc, List.append_assoc, List.nil_append]

/-- The record of a message is displayed as its stored text. -/
lemma displayText_eq {msg : Vector Byte SIMPLE_MSG_LEN} {m : Message}
    (h : Holds msg 0#8 (storedText m)) (out : List Byte) :
    displayText msg out = out ++ storedText m := by
  have hroom : (storedText m).length < msg.toList.length := by
    have hle := length_storedText_le m
    have hsize := Draft.msgLen_eq
    rw [Vector.length_toList]
    omega
  have htext : textOf msg.toList = storedText m := by
    refine textOf_eq (zero_notMem_storedText m) hroom fun k hk => ?_
    have hk' : k < SIMPLE_MSG_LEN := by
      rw [Vector.length_toList] at hroom
      omega
    rw [List.getD_eq_getElem?_getD, Vector.getElem?_toList, h k hk', Option.getD_some]
  rw [displayText, htext]
  have hshown : ∀ c ∈ storedText m, isShown c = true := fun c => isShown_of_mem_storedText
  generalize storedText m = text at hshown
  induction text generalizing out with
  | nil => rw [List.foldl_nil, List.append_nil]
  | cons c text ih =>
      obtain ⟨hc, htext⟩ := List.forall_mem_cons.mp hshown
      rw [List.foldl_cons, if_pos hc, ih _ htext, fputc, List.append_assoc,
        List.singleton_append]

/-- The loop over the entries. -/
lemma displayEntries_eq {entries : List SimpleMsg} {ms : List Message}
    (h : List.Forall₂ SimpleMsg.Shows entries ms) {i : ℕ}
    (hi : i + ms.length ≤ SIMPLE_MSG_COUNT) (out : List Byte) :
    displayEntries entries i out = out ++ entryLines ms i := by
  induction h generalizing i out with
  | nil => rw [displayEntries, entryLines, List.zipIdx_nil, List.flatMap_nil, List.append_nil]
  | @cons entry m entries ms hentry _ ih =>
      rw [List.length_cons] at hi
      have hvalid : ¬entry.valid ≠ 12345#32 := not_not.mpr hentry.1
      rw [displayEntries, ih (by omega), displayEntry, if_neg hvalid, displayIndex_eq (by omega),
        displayText_eq hentry.2, entryLines, entryLines, List.zipIdx_cons, List.flatMap_cons]
      simp only [fputc, List.append_assoc]
      rfl

/-- **What is displayed** of the messages that are pending. -/
theorem displayKernelMessages_eq {d : Dmesg} {ms : List Message} (h : d.Logs ms) (hne : ms ≠ [])
    (out : List Byte) : displayKernelMessages d out =
      out ++ logText (displayCount (min SIMPLE_MSG_COUNT ms.length) []) ms := by
  have hready : ¬(!d.initialized) = true := fun hnot =>
    hne (h.init (by simpa using hnot))
  have hidx : d.idx ≠ 0 := by
    have hlen := List.length_pos_iff.mpr hne
    have hmin := h.idx
    have hsize : SIMPLE_MSG_COUNT = 20 := rfl
    omega
  have hcount : ∀ n out, displayCount n out = out ++ displayCount n [] := by
    intro n out
    rw [displayCount, displayCount]
    split_ifs <;> simp only [fputc, List.append_assoc, List.nil_append]
  have hfit : 0 + (ms.take SIMPLE_MSG_COUNT).length ≤ SIMPLE_MSG_COUNT := by
    rw [Nat.zero_add]
    exact List.length_take_le _ _
  rw [displayKernelMessages, if_neg hready, if_neg hidx]
  simp only [putsText_eq, displayEntries_eq h.entries hfit]
  rw [hcount, h.idx, logText]
  simp only [List.append_assoc]

/-- The number of messages is displayed in decimal as long as it is below 20. -/
lemma displayCount_eq_iff {n : ℕ} (hn : n ≤ SIMPLE_MSG_COUNT) :
    displayCount n [] = digitText 10 n ↔ n < SIMPLE_MSG_COUNT := by
  have hone : ∀ n < 10, displayCount n [] = [hexChars.getD n 0#8] := by decide
  have htwo : ∀ n ≤ 20, 10 ≤ n → (displayCount n [] = twoDigits n ↔ n < 20) := by decide
  rw [digitText]
  by_cases hlt : n < 10
  · rw [Numeral.numeral_of_lt (by decide) hlt, hone n hlt]
    exact iff_of_true rfl (hlt.trans (by decide))
  · have hle : n < 10 * 10 := Nat.lt_of_le_of_lt hn (by decide)
    rw [Numeral.numeral_of_lt_mul (by decide) (Nat.le_of_not_lt hlt) hle]
    exact htwo n hn (Nat.le_of_not_lt hlt)

/-- The display is right exactly if the number of messages is. -/
lemma logText_eq_rightText_iff (ms : List Message) :
    logText (displayCount (min SIMPLE_MSG_COUNT ms.length) []) ms = rightText ms ↔
      ms.length < SIMPLE_MSG_COUNT := by
  rw [rightText, logText, logText, List.append_left_inj, List.append_right_inj,
    displayCount_eq_iff (min_le_left _ _), min_lt_iff, or_iff_right (lt_irrefl _)]

/-- **The display of the messages since the last clear.**  After every sequence of calls the
records hold the stored texts of the first 20, each with a NUL behind it, and they are displayed
right exactly if there are fewer than 20: the number 20 is written as `1:`. -/
theorem display_iff (calls : List DmesgCall) (hpending : pending calls ≠ []) :
    ∃ d, runDmesg calls Dmesg.start = some d ∧
      List.Forall₂ SimpleMsg.Shows (d.messages.toList.take d.idx)
        ((pending calls).take SIMPLE_MSG_COUNT) ∧
      (displayKernelMessages d [] = rightText (pending calls) ↔
        (pending calls).length < SIMPLE_MSG_COUNT) := by
  obtain ⟨d, hrun, hlogs⟩ := runDmesg_logs calls
  refine ⟨d, hrun, hlogs.entries, ?_⟩
  rw [displayKernelMessages_eq hlogs hpending, List.nil_append]
  exact logText_eq_rightText_iff _

/-- A message without component and text. -/
def emptyMessage : DmesgCall := .add (ch 'I') (none, none)

/-- After a clear, one message is displayed right. -/
theorem display_iff_one :
    ∃ d, runDmesg [emptyMessage, .clear, emptyMessage] Dmesg.start = some d ∧
      displayKernelMessages d [] =
        ascii "=== Kernel Messages ===\n00: \n=== End Messages (1 shown) ===\n" := by
  obtain ⟨d, hrun, -, hdisplay⟩ :=
    display_iff [emptyMessage, .clear, emptyMessage] (List.cons_ne_nil _ _)
  have htext : rightText (pending [emptyMessage, .clear, emptyMessage]) =
      ascii "=== Kernel Messages ===\n00: \n=== End Messages (1 shown) ===\n" := by
    have hone : digitText 10 1 = [ch '1'] := by
      rw [digitText, Numeral.numeral_of_lt (by decide) (by decide)]
      decide
    have hpending : pending [emptyMessage, .clear, emptyMessage] = [(none, none)] := rfl
    rw [hpending, rightText, List.length_singleton]
    exact (congrArg (logText · [(none, none)]) hone).trans (by decide)
  exact ⟨d, hrun, (hdisplay.mpr (by decide)).trans htext⟩

/-- With 20 messages the display is not right. -/
theorem display_full_wrong :
    ¬∃ d, runDmesg (List.replicate 20 emptyMessage) Dmesg.start = some d ∧
      displayKernelMessages d [] = rightText (pending (List.replicate 20 emptyMessage)) := by
  rintro ⟨d, hrun, hdisplay⟩
  obtain ⟨e, hrun', hlogs⟩ := runDmesg_logs (List.replicate 20 emptyMessage)
  obtain rfl := Option.some.inj (hrun.symm.trans hrun')
  rw [displayKernelMessages_eq hlogs (List.cons_ne_nil _ _), List.nil_append,
    logText_eq_rightText_iff] at hdisplay
  exact absurd hdisplay (by decide)

end MiqOSoft
