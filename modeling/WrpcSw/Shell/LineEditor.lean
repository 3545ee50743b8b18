import Mathlib.Data.List.Basic
import Mathlib.Data.Nat.Bitwise
import Mathlib.Logic.Function.Basic
import Mathlib.Tactic.SplitIfs

/-!
# The line editor of the shell (`shell/shell.c`)

`shell_interactive` is called again and again from the main loop.  In each call it
prints the prompt, or takes one byte from the serial line and edits the command line
with it, or executes the line.

The editor that it implements is a text of at most 80 characters with a cursor, driven
by keys; some keys are sent as escape sequences, which are decoded byte by byte.

* `Editor`, `Key.decode`, `Session` — the abstract editor, the decoder and both together.
* `Shell.interactive` — the code, on a buffer that insertions and deletions shift.
* `refines_step`, `refines_run` — one call, and any number of calls.
* `interactive_refines` — what holds in each state of the shell.
-/

namespace WrpcSw
namespace Shell

def SH_MAX_LINE_LEN : Nat := 80

/-! ## The abstract editor -/

/-- A text with a cursor. -/
structure Editor where
  text : List UInt8
  cursor : Nat
  length_le : text.length ≤ SH_MAX_LINE_LEN
  cursor_le : cursor ≤ text.length

namespace Editor

def empty : Editor := ⟨[], 0, Nat.zero_le _, Nat.le_refl _⟩

/-- Insert at the cursor when there is room. -/
def insert (e : Editor) (c : UInt8) : Editor :=
  if h : e.text.length < SH_MAX_LINE_LEN then
    { text := e.text.insertIdx e.cursor c
      cursor := e.cursor + 1
      length_le := by rw [List.length_insertIdx_of_le_length e.cursor_le]; exact h
      cursor_le := by
        rw [List.length_insertIdx_of_le_length e.cursor_le]
        exact Nat.succ_le_succ e.cursor_le }
  else e

/-- Delete the character under the cursor. -/
def deleteUnder (e : Editor) : Editor :=
  if h : e.cursor < e.text.length then
    { text := e.text.eraseIdx e.cursor
      cursor := e.cursor
      length_le := Nat.le_trans (List.length_eraseIdx_le _ _) e.length_le
      cursor_le := by rw [List.length_eraseIdx_of_lt h]; omega }
  else e

/-- Delete the character before the cursor. -/
def deleteBefore (e : Editor) : Editor :=
  if h : 0 < e.cursor then
    { text := e.text.eraseIdx (e.cursor - 1)
      cursor := e.cursor - 1
      length_le := Nat.le_trans (List.length_eraseIdx_le _ _) e.length_le
      cursor_le := by
        have hcursor := e.cursor_le
        rw [List.length_eraseIdx_of_lt (by omega)]
        omega }
  else e

def left (e : Editor) : Editor :=
  { e with cursor := e.cursor - 1, cursor_le := Nat.le_trans (Nat.sub_le _ _) e.cursor_le }

def right (e : Editor) : Editor :=
  if h : e.cursor < e.text.length then { e with cursor := e.cursor + 1, cursor_le := h } else e

end Editor

inductive Key
  | left
  | right
  | enter
  | deleteUnder
  | deleteBefore
  | char (c : UInt8)
deriving DecidableEq

/-- What the editor does with a key; Enter leaves an empty text. -/
def Editor.press (e : Editor) : Key → Editor
  | .left => e.left
  | .right => e.right
  | .enter => .empty
  | .deleteUnder => e.deleteUnder
  | .deleteBefore => e.deleteBefore
  | .char c => e.insert c

/-- The key of a byte that ends a sequence; `escape` says whether an escape sequence was open. -/
def Key.ofByte (escape : Bool) (c : UInt8) : Option Key :=
  if escape then
    if c = 68 then some .left else if c = 67 then some .right else none
  else if c = 13 then some .enter
  else if c = 126 then some .deleteUnder
  else if c = 127 then some .deleteBefore
  else if c = 9 then none
  else some (.char c)

/-- One byte into the decoder: whether an escape sequence is open after it, and a key.  A zero
byte passes without a trace. -/
def Key.decode (escape : Bool) (c : UInt8) : Bool × Option Key :=
  if c = 27 ∨ (escape ∧ c = 91) then (true, none)
  else if c = 0 then (escape, none)
  else (false, Key.ofByte escape c)

/-- A byte, or nothing, read from the line: the state of the decoder and the keys so far. -/
def decodeReading (d : Bool × List Key) : Option UInt8 → Bool × List Key
  | none => d
  | some c => ((Key.decode d.1 c).1, d.2 ++ (Key.decode d.1 c).2.toList)

/-- What the decoder makes of a sequence of readings. -/
def decodeReadings (readings : List (Option UInt8)) : Bool × List Key :=
  readings.foldl decodeReading (false, [])

/-- The editor, with the lines that were entered. -/
structure Session where
  editor : Editor
  lines : List (List UInt8)

def Session.start : Session := ⟨.empty, []⟩

/-- A key; Enter adds the text to the lines. -/
def Session.press (s : Session) (key : Key) : Session where
  editor := s.editor.press key
  lines := if key = .enter then s.lines ++ [s.editor.text] else s.lines

/-- The session of a sequence of keys. -/
def sessionOf (keys : List Key) : Session := keys.foldl Session.press .start

/-! ## The code -/

inductive ShState
  | prompt
  | input
  | exec
deriving DecidableEq

def ESCAPE_FLAG : UInt32 := 0x10000

def KEY_LEFT : UInt32 := ESCAPE_FLAG ||| 68

def KEY_RIGHT : UInt32 := ESCAPE_FLAG ||| 67

def KEY_ENTER : UInt32 := 13

def KEY_BACKSPACE : UInt32 := 127

def KEY_DELETE : UInt32 := 126

/-- The variables of the shell.  `cmdBuf` is the memory around `cmd_buf`, whose elements have the
indices from 0 to 80.  The remaining fields record what happens: the number of readings, the
bytes printed, the blocks written to the memory (first index and length) and the strings
handed to `_shell_exec`. -/
structure Vars where
  cmdBuf : Int → UInt8
  cmdPos : Int
  cmdLen : Int
  state : ShState
  currentKey : UInt32
  reads : Nat
  printed : List UInt8
  stores : List (Int × Int)
  handed : List (List UInt8)

/-- `memmove(&cmd_buf[dst], &cmd_buf[src], n)`. -/
def Vars.memmove (s : Vars) (dst src n : Int) : Vars :=
  { s with
    cmdBuf := fun i => if dst ≤ i ∧ i < dst + n then s.cmdBuf (src + (i - dst)) else s.cmdBuf i
    stores := s.stores ++ [(dst, n)] }

/-- `cmd_buf[i] = c`. -/
def Vars.store (s : Vars) (i : Int) (c : UInt8) : Vars :=
  { s with cmdBuf := Function.update s.cmdBuf i c, stores := s.stores ++ [(i, 1)] }

def Vars.print (s : Vars) (bs : List UInt8) : Vars := { s with printed := s.printed ++ bs }

def insert (s : Vars) (c : UInt8) : Bool × Vars :=
  if s.cmdLen ≥ SH_MAX_LINE_LEN then (false, s)
  else
    let s := if s.cmdPos ≠ s.cmdLen then
      s.memmove (s.cmdPos + 1) s.cmdPos (s.cmdLen - s.cmdPos) else s
    let s := s.store s.cmdPos c
    (true, { s with cmdPos := s.cmdPos + 1, cmdLen := s.cmdLen + 1 })

def delete (s : Vars) (position : Int) : Vars :=
  let s := s.memmove position (position + 1) (s.cmdLen - position)
  { s with cmdLen := s.cmdLen - 1 }

/-- The printed sequence is `"\\033[1%c"`. -/
def esc (s : Vars) (code : UInt8) : Vars := s.print [27, 91, 49, code]

/-- The inner `switch` of `shell_interactive`. -/
def pressKey (s : Vars) (key : UInt32) : Vars :=
  if key = KEY_LEFT then
    if s.cmdPos > 0 then esc { s with cmdPos := s.cmdPos - 1 } 68 else s
  else if key = KEY_RIGHT then
    if s.cmdPos < s.cmdLen then esc { s with cmdPos := s.cmdPos + 1 } 67 else s
  else if key = KEY_ENTER then { s.print [10] with state := .exec }
  else if key = KEY_DELETE then
    if s.cmdPos ≠ s.cmdLen then esc (delete s s.cmdPos) 80 else s
  else if key = KEY_BACKSPACE then
    if s.cmdPos > 0 then
      let s := esc (esc s 68) 80
      let s := delete s (s.cmdPos - 1)
      { s with cmdPos := s.cmdPos - 1 }
    else s
  else if key = 9 then s
  else if key &&& ESCAPE_FLAG = 0 then
    match insert s key.toUInt8 with
    | (true, s) => (esc s 64).print [key.toUInt8]
    | (false, s) => s
  else s

/-- The string at the start of `cmd_buf`. -/
def cString (buf : Int → UInt8) : List UInt8 :=
  ((List.range (SH_MAX_LINE_LEN + 1)).map fun i : Nat => buf i).takeWhile (· ≠ 0)

/-- One call.  `uart` is what `uart_read_byte` returns at each reading, and `shellExec` is what
the executed command leaves in `cmd_buf`, `cmd_pos` and `cmd_len`. -/
def interactive (shellExec : Vars → (Int → UInt8) × Int × Int) (uart : Nat → Option UInt8)
    (s : Vars) : Vars :=
  match s.state with
  | .prompt =>
      { s.print [119, 114, 99, 35, 32] with cmdPos := 0, cmdLen := 0, state := .input }
  | .input =>
      let reading := uart s.reads
      let s := { s with reads := s.reads + 1 }
      match reading with
      | none => s
      | some c =>
          let key := if c = 27 ∨ (s.currentKey &&& ESCAPE_FLAG ≠ 0 ∧ c = 91) then ESCAPE_FLAG
            else s.currentKey ||| c.toUInt32
          if key &&& 0xff ≠ 0 then { pressKey s key with currentKey := 0 }
          else { s with currentKey := key }
  | .exec =>
      let s := s.store s.cmdLen 0
      let (cmdBuf, cmdPos, cmdLen) := shellExec s
      { s with cmdBuf, cmdPos, cmdLen, state := .prompt, handed := s.handed ++ [cString s.cmdBuf] }

/-! ## The words of the decoder -/

/-- The word of a byte in or outside an escape sequence. -/
def keyWord (escape : Bool) (c : UInt8) : UInt32 :=
  (if escape then ESCAPE_FLAG else 0) ||| c.toUInt32

theorem toNat_keyWord (escape : Bool) (c : UInt8) :
    (keyWord escape c).toNat = (if escape then 2 ^ 16 else 0) + c.toNat := by
  have hlt := c.toNat_lt
  cases escape with
  | false => simp [keyWord]
  | true =>
      have hor := Nat.two_pow_add_eq_or_of_lt (show c.toNat < 2 ^ 16 by omega) 1
      rw [keyWord, UInt32.toNat_or, UInt8.toNat_toUInt32, if_pos rfl, if_pos rfl]
      rw [Nat.mul_one] at hor
      exact hor.symm

theorem keyWord_inj {escape escape' : Bool} {c c' : UInt8} :
    keyWord escape c = keyWord escape' c' ↔ escape = escape' ∧ c = c' := by
  have hlt := c.toNat_lt
  have hlt' := c'.toNat_lt
  rw [← UInt32.toNat_inj, ← UInt8.toNat_inj, toNat_keyWord, toNat_keyWord]
  cases escape <;> cases escape' <;> simp <;> omega

theorem keyWord_flag (escape : Bool) (c : UInt8) :
    keyWord escape c &&& ESCAPE_FLAG = 0 ↔ escape = false := by
  have hbit : c.toNat.testBit 16 = false :=
    Nat.testBit_lt_two_pow (Nat.lt_trans c.toNat_lt (by decide))
  rw [← UInt32.toNat_inj, UInt32.toNat_and, toNat_keyWord,
    show ESCAPE_FLAG.toNat = 2 ^ 16 from rfl, Nat.and_two_pow]
  cases escape with
  | false => simp [hbit]
  | true =>
      have hset : (2 ^ 16 + c.toNat).testBit 16 = true := by
        rw [Nat.testBit_two_pow_add_eq, hbit]
        rfl
      rw [if_pos rfl, hset]
      simp

theorem keyWord_low (escape : Bool) (c : UInt8) : keyWord escape c &&& 0xff = 0 ↔ c = 0 := by
  have hlt := c.toNat_lt
  have hmask : (keyWord escape c &&& 0xff).toNat = c.toNat := by
    rw [UInt32.toNat_and, toNat_keyWord]
    refine (Nat.and_two_pow_sub_one_eq_mod _ 8).trans ?_
    split_ifs <;> omega
  rw [← UInt32.toNat_inj, ← UInt8.toNat_inj, hmask]
  exact Iff.rfl

theorem keyWord_char (escape : Bool) (c : UInt8) : (keyWord escape c).toUInt8 = c := by
  have hlt := c.toNat_lt
  rw [← UInt8.toNat_inj, UInt32.toNat_toUInt8, toNat_keyWord]
  split_ifs <;> omega

/-- The action of a key on the variables. -/
def Vars.press (s : Vars) : Key → Vars
  | .left => if s.cmdPos > 0 then esc { s with cmdPos := s.cmdPos - 1 } 68 else s
  | .right => if s.cmdPos < s.cmdLen then esc { s with cmdPos := s.cmdPos + 1 } 67 else s
  | .enter => { s.print [10] with state := .exec }
  | .deleteUnder => if s.cmdPos ≠ s.cmdLen then esc (delete s s.cmdPos) 80 else s
  | .deleteBefore =>
      if s.cmdPos > 0 then
        { delete (esc (esc s 68) 80) (s.cmdPos - 1) with cmdPos := s.cmdPos - 1 }
      else s
  | .char c => if (insert s c).1 then (esc (insert s c).2 64).print [c] else (insert s c).2

/-- The `switch` acts on the key that the decoder extracts. -/
theorem pressKey_eq (s : Vars) (escape : Bool) (c : UInt8) :
    pressKey s (keyWord escape c) = ((Key.ofByte escape c).map s.press).getD s := by
  have hleft : KEY_LEFT = keyWord true 68 := rfl
  have hright : KEY_RIGHT = keyWord true 67 := rfl
  have henter : KEY_ENTER = keyWord false 13 := rfl
  have hdelete : KEY_DELETE = keyWord false 126 := rfl
  have hbackspace : KEY_BACKSPACE = keyWord false 127 := rfl
  have htab : (9 : UInt32) = keyWord false 9 := rfl
  unfold pressKey
  rw [hleft, hright, henter, hdelete, hbackspace, htab]
  simp only [keyWord_inj, keyWord_flag, keyWord_char, Key.ofByte]
  cases escape with
  | true =>
      simp only [true_and, if_true, reduceCtorEq, false_and, if_false]
      by_cases hleft : c = 68
      · rw [if_pos hleft, if_pos hleft]
        rfl
      rw [if_neg hleft, if_neg hleft]
      by_cases hright : c = 67
      · rw [if_pos hright, if_pos hright]
        rfl
      rw [if_neg hright, if_neg hright]
      rfl
  | false =>
      simp only [true_and, if_true, reduceCtorEq, false_and, if_false]
      by_cases henter : c = 13
      · rw [if_pos henter, if_pos henter]
        rfl
      rw [if_neg henter, if_neg henter]
      by_cases hdelete : c = 126
      · rw [if_pos hdelete, if_pos hdelete]
        rfl
      rw [if_neg hdelete, if_neg hdelete]
      by_cases hbackspace : c = 127
      · rw [if_pos hbackspace, if_pos hbackspace]
        rfl
      rw [if_neg hbackspace, if_neg hbackspace]
      by_cases htab : c = 9
      · rw [if_pos htab, if_pos htab]
        rfl
      rw [if_neg htab, if_neg htab, Option.map_some, Option.getD_some, Vars.press]
      rcases insert s c with ⟨_ | _, s'⟩
      · rfl
      · rfl

/-! ## One key -/

/-- All blocks written so far are in `cmd_buf[0..80]`. -/
def Inside (s : Vars) : Prop :=
  ∀ block ∈ s.stores, 0 ≤ block.1 ∧ block.1 + block.2 ≤ SH_MAX_LINE_LEN + 1

/-- The variables hold the editor `e`. -/
structure Shows (s : Vars) (e : Editor) : Prop where
  len : s.cmdLen = e.text.length
  pos : s.cmdPos = e.cursor
  text : ∀ i (h : i < e.text.length), s.cmdBuf i = e.text[i]
  inside : Inside s

/-- The state, what is printed and the word of the decoder are not part of the editor. -/
theorem Shows.congr {s s' : Vars} {e : Editor} (h : Shows s e) (hbuf : s'.cmdBuf = s.cmdBuf)
    (hpos : s'.cmdPos = s.cmdPos) (hlen : s'.cmdLen = s.cmdLen)
    (hstores : s'.stores = s.stores) : Shows s' e where
  len := hlen.trans h.len
  pos := hpos.trans h.pos
  text := by rw [hbuf]; exact h.text
  inside := by unfold Inside; rw [hstores]; exact h.inside

theorem Inside.store {s : Vars} (h : Inside s) {i : Int} (c : UInt8) (hlow : 0 ≤ i)
    (hhigh : i ≤ SH_MAX_LINE_LEN) : Inside (s.store i c) := by
  intro block hblock
  rcases List.mem_append.mp hblock with hold | hnew
  · exact h block hold
  · rw [List.mem_singleton] at hnew
    subst hnew
    exact ⟨hlow, by dsimp only; omega⟩

theorem Inside.memmove {s : Vars} (h : Inside s) {dst src n : Int} (hlow : 0 ≤ dst)
    (hhigh : dst + n ≤ SH_MAX_LINE_LEN + 1) : Inside (s.memmove dst src n) := by
  intro block hblock
  rcases List.mem_append.mp hblock with hold | hnew
  · exact h block hold
  · rw [List.mem_singleton] at hnew
    subst hnew
    exact ⟨hlow, hhigh⟩

section Key

variable {s : Vars} {e : Editor}

/-- An insertion with room: the block from the cursor on moves by one. -/
theorem insert_room (c : UInt8) (hroom : s.cmdLen < SH_MAX_LINE_LEN) :
    (insert s c).2.cmdPos = s.cmdPos + 1 ∧ (insert s c).2.cmdLen = s.cmdLen + 1 ∧
      ∀ i, (insert s c).2.cmdBuf i = if i = s.cmdPos then c
        else if s.cmdPos < i ∧ i ≤ s.cmdLen then s.cmdBuf (i - 1) else s.cmdBuf i := by
  unfold insert
  rw [if_neg (by omega)]
  by_cases hend : s.cmdPos ≠ s.cmdLen
  · rw [if_pos hend]
    refine ⟨rfl, rfl, fun i => ?_⟩
    simp only [Vars.store, Vars.memmove, Function.update_apply]
    split_ifs with hcursor hmoved hblock hblock
    · rfl
    · rw [show s.cmdPos + (i - (s.cmdPos + 1)) = i - 1 by omega]
    · exact absurd hblock (by omega)
    · exact absurd hmoved (by omega)
    · rfl
  · rw [if_neg hend]
    refine ⟨rfl, rfl, fun i => ?_⟩
    simp only [Vars.store, Function.update_apply]
    split_ifs with hcursor hblock
    · rfl
    · exact absurd hblock (by omega)
    · rfl

theorem Inside.insert (h : Inside s) (c : UInt8) (hlow : 0 ≤ s.cmdPos)
    (hpos : s.cmdPos ≤ s.cmdLen) : Inside (Shell.insert s c).2 := by
  unfold Shell.insert
  split_ifs with hfull hend
  · exact h
  · exact (h.memmove (by omega) (by omega)).store c hlow (by simp only [Vars.memmove]; omega)
  · exact h.store c hlow (by omega)

theorem Shows.insert (h : Shows s e) (c : UInt8) : Shows (Shell.insert s c).2 (e.insert c) := by
  have hlen := h.len
  have hpos := h.pos
  have hcursor := e.cursor_le
  have hinside := h.inside.insert c (by omega) (by omega)
  by_cases hroom : e.text.length < SH_MAX_LINE_LEN
  · obtain ⟨hpos', hlen', hbuf⟩ := insert_room (s := s) c (by omega)
    have hlength := List.length_insertIdx_of_le_length hcursor c
    rw [Editor.insert, dif_pos hroom]
    refine ⟨by rw [hlen', hlength, hlen]; rfl, by rw [hpos', hpos]; rfl, ?_, hinside⟩
    intro i hi
    rw [hlength] at hi
    rw [hbuf, List.getElem_insertIdx]
    split_ifs with hat hafter hblock hbefore
    · omega
    · rfl
    · omega
    · omega
    · omega
    · have hprev : (i : Int) - 1 = (i - 1 : Nat) := by omega
      rw [hprev, h.text (i - 1) (by omega)]
    · exact h.text i (by omega)
    · omega
    · omega
  · rw [Editor.insert, dif_neg hroom, Shell.insert, if_pos (by omega)]
    exact h

/-- A deletion inside the text: the block behind the deleted character moves back by one. -/
theorem Shows.delete (h : Shows s e) {p : Nat} (hp : p < e.text.length) :
    (Shell.delete s p).cmdLen = (e.text.eraseIdx p).length ∧
      (∀ i (h : i < (e.text.eraseIdx p).length),
        (Shell.delete s p).cmdBuf i = (e.text.eraseIdx p)[i]) ∧
      Inside (Shell.delete s p) := by
  have hlen := h.len
  have hlimit := e.length_le
  have hlength := List.length_eraseIdx_of_lt hp
  have hinside : Inside (s.memmove p (p + 1) (s.cmdLen - p)) :=
    h.inside.memmove (by omega) (by omega)
  refine ⟨?_, ?_, hinside⟩
  · rw [hlength]
    simp only [Shell.delete, Vars.memmove]
    omega
  · intro i hi
    rw [hlength] at hi
    simp only [Shell.delete, Vars.memmove]
    rw [List.getElem_eraseIdx]
    split_ifs with hmoved hbefore hbefore
    · omega
    · have hnext : (p : Int) + 1 + (i - p) = (i + 1 : Nat) := by omega
      rw [hnext, h.text (i + 1) (by omega)]
    · exact h.text i (by omega)
    · omega

/-- What a key other than Enter leaves alone. -/
structure Keeps (s s' : Vars) : Prop where
  state : s'.state = s.state
  reads : s'.reads = s.reads
  handed : s'.handed = s.handed

theorem keeps_insert (s : Vars) (c : UInt8) : Keeps s (insert s c).2 := by
  unfold insert
  split_ifs <;> exact ⟨rfl, rfl, rfl⟩

theorem keeps_press (s : Vars) {key : Key} (hkey : key ≠ .enter) : Keeps s (s.press key) := by
  cases key with
  | enter => exact absurd rfl hkey
  | char c =>
      have hinsert := keeps_insert s c
      rw [Vars.press]
      split_ifs <;> exact ⟨hinsert.state, hinsert.reads, hinsert.handed⟩
  | left => rw [Vars.press]; split_ifs <;> exact ⟨rfl, rfl, rfl⟩
  | right => rw [Vars.press]; split_ifs <;> exact ⟨rfl, rfl, rfl⟩
  | deleteUnder => rw [Vars.press]; split_ifs <;> exact ⟨rfl, rfl, rfl⟩
  | deleteBefore => rw [Vars.press]; split_ifs <;> exact ⟨rfl, rfl, rfl⟩

theorem reads_press (s : Vars) (key : Key) : (s.press key).reads = s.reads := by
  by_cases henter : key = .enter
  · rw [henter]
    rfl
  · exact (keeps_press s henter).reads

/-- A key other than Enter does to the variables what it does to the editor. -/
theorem Shows.press (h : Shows s e) {key : Key} (hkey : key ≠ .enter) :
    Shows (s.press key) (e.press key) := by
  have hlen := h.len
  have hpos := h.pos
  have hcursor := e.cursor_le
  cases key with
  | enter => exact absurd rfl hkey
  | left =>
      rw [Vars.press, Editor.press]
      split_ifs with hmoves
      · exact ⟨h.len, by simp only [esc, Vars.print, Editor.left]; omega, h.text, h.inside⟩
      · exact ⟨h.len, by simp only [Editor.left]; omega, h.text, h.inside⟩
  | right =>
      rw [Vars.press, Editor.press, Editor.right]
      split_ifs with hmoves hinside hinside
      · exact ⟨h.len, by simp only [esc, Vars.print]; omega, h.text, h.inside⟩
      · omega
      · omega
      · exact h
  | deleteUnder =>
      rw [Vars.press, Editor.press, Editor.deleteUnder]
      split_ifs with hmoves hinside hinside
      · obtain ⟨hlen', htext, hin⟩ := h.delete hinside
        rw [hpos]
        exact ⟨hlen', hpos, htext, hin⟩
      · omega
      · omega
      · exact h
  | deleteBefore =>
      rw [Vars.press, Editor.press, Editor.deleteBefore]
      have hprinted : Shows (esc (esc s 68) 80) e := h.congr rfl rfl rfl rfl
      split_ifs with hmoves hinside hinside
      · obtain ⟨hlen', htext, hin⟩ := hprinted.delete (p := e.cursor - 1) (by omega)
        have hprev : s.cmdPos - 1 = (e.cursor - 1 : Nat) := by omega
        rw [hprev]
        exact ⟨hlen', rfl, htext, hin⟩
      · omega
      · omega
      · exact h
  | char c =>
      have hinsert := h.insert c
      rw [Vars.press, Editor.press]
      split_ifs
      · exact hinsert.congr rfl rfl rfl rfl
      · exact hinsert

end Key

/-! ## One byte -/

/-- The word that the decoder keeps between two bytes. -/
def flagWord (escape : Bool) : UInt32 := if escape then ESCAPE_FLAG else 0

theorem flagWord_flag (escape : Bool) : flagWord escape &&& ESCAPE_FLAG ≠ 0 ↔ escape = true := by
  cases escape with
  | false => exact ⟨fun h => absurd rfl h, nofun⟩
  | true => exact ⟨fun _ => rfl, fun _ => by decide⟩

section Byte

variable (shellExec : Vars → (Int → UInt8) × Int × Int) {uart : Nat → Option UInt8} {s : Vars}

theorem interactive_prompt (hstate : s.state = .prompt) :
    interactive shellExec uart s =
      { s.print [119, 114, 99, 35, 32] with cmdPos := 0, cmdLen := 0, state := .input } := by
  rw [interactive, hstate]

theorem interactive_exec (hstate : s.state = .exec) :
    interactive shellExec uart s =
      { s.store s.cmdLen 0 with
        cmdBuf := (shellExec (s.store s.cmdLen 0)).1
        cmdPos := (shellExec (s.store s.cmdLen 0)).2.1
        cmdLen := (shellExec (s.store s.cmdLen 0)).2.2
        state := .prompt
        handed := s.handed ++ [cString (s.store s.cmdLen 0).cmdBuf] } := by
  rw [interactive, hstate]
  rfl

theorem interactive_none (hstate : s.state = .input) (hread : uart s.reads = none) :
    interactive shellExec uart s = { s with reads := s.reads + 1 } := by
  rw [interactive, hstate]
  dsimp only
  rw [hread]

/-- A byte is decoded, and its key pressed if it makes one. -/
theorem interactive_some {c : UInt8} {escape : Bool} (hstate : s.state = .input)
    (hread : uart s.reads = some c) (hkey : s.currentKey = flagWord escape) :
    interactive shellExec uart s =
      { ((Key.decode escape c).2.map ({ s with reads := s.reads + 1 } : Vars).press).getD
          { s with reads := s.reads + 1 } with
        currentKey := flagWord (Key.decode escape c).1 } := by
  rw [interactive, hstate]
  dsimp only
  rw [hread]
  dsimp only
  rw [hkey]
  simp only [flagWord_flag]
  by_cases hopens : c = 27 ∨ escape = true ∧ c = 91
  · rw [if_pos hopens, if_neg (by decide), Key.decode, if_pos hopens]
    rfl
  rw [if_neg hopens, Key.decode, if_neg hopens, show flagWord escape ||| c.toUInt32 =
    keyWord escape c from rfl]
  by_cases hzero : c = 0
  · rw [if_neg (not_not.mpr ((keyWord_low escape c).mpr hzero)), if_pos hzero, hzero]
    cases escape with
    | false => rfl
    | true => rfl
  · rw [if_pos (fun h => hzero ((keyWord_low escape c).mp h)), if_neg hzero, pressKey_eq]
    rfl

/-- A call that reads the line does not leave the prompt due. -/
theorem interactive_state {escape : Bool} (hstate : s.state = .input)
    (hkey : s.currentKey = flagWord escape) : (interactive shellExec uart s).state ≠ .prompt := by
  have hinput : s.state ≠ .prompt := by
    rw [hstate]
    exact nofun
  cases hread : uart s.reads with
  | none =>
      rw [interactive_none shellExec hstate hread]
      exact hinput
  | some c =>
      rw [interactive_some shellExec hstate hread hkey]
      cases (Key.decode escape c).2 with
      | none => exact hinput
      | some key =>
          by_cases henter : key = .enter
          · rw [henter]
            exact nofun
          · have hkeeps := (keeps_press { s with reads := s.reads + 1 } henter).state
            rw [Option.map_some, Option.getD_some]
            exact fun h => hinput (hkeeps.symm.trans h)

end Byte

/-! ## The text as a string -/

/-- The text holds no zero byte, so that it is a string. -/
def IsString (text : List UInt8) : Prop := ∀ c ∈ text, c ≠ 0

theorem isString_nil : IsString [] := fun _ hc => absurd hc List.not_mem_nil

theorem Key.ofByte_char {escape : Bool} {c c' : UInt8}
    (h : Key.ofByte escape c = some (.char c')) : c = c' := by
  unfold Key.ofByte at h
  split_ifs at h
  · exact absurd (Option.some.inj h) nofun
  · exact absurd (Option.some.inj h) nofun
  · exact absurd (Option.some.inj h) nofun
  · exact absurd (Option.some.inj h) nofun
  · exact absurd (Option.some.inj h) nofun
  · exact Key.char.inj (Option.some.inj h)

/-- The decoder makes no character of a zero byte. -/
theorem Key.decode_char {escape : Bool} {c c' : UInt8}
    (h : (Key.decode escape c).2 = some (.char c')) : c' ≠ 0 := by
  unfold Key.decode at h
  split_ifs at h with hopens hzero
  rwa [← Key.ofByte_char h]

theorem IsString.press {e : Editor} (h : IsString e.text) {key : Key}
    (hkey : ∀ c, key = .char c → c ≠ 0) : IsString (e.press key).text := by
  cases key with
  | left => exact h
  | right =>
      rw [Editor.press, Editor.right]
      split_ifs
      · exact h
      · exact h
  | enter => exact isString_nil
  | deleteUnder =>
      rw [Editor.press, Editor.deleteUnder]
      split_ifs
      · exact fun c hc => h c (List.mem_of_mem_eraseIdx hc)
      · exact h
  | deleteBefore =>
      rw [Editor.press, Editor.deleteBefore]
      split_ifs
      · exact fun c hc => h c (List.mem_of_mem_eraseIdx hc)
      · exact h
  | char c =>
      rw [Editor.press, Editor.insert]
      split_ifs
      · intro c' hc'
        rcases (List.mem_insertIdx e.cursor_le).mp hc' with rfl | hold
        · exact hkey _ rfl
        · exact h c' hold
      · exact h

/-- What is handed to `_shell_exec` after the terminating zero is written. -/
theorem Shows.cString {s : Vars} {e : Editor} (h : Shows s e) (hstring : IsString e.text) :
    cString (s.store s.cmdLen 0).cmdBuf = e.text := by
  have hlimit := e.length_le
  have hrange : SH_MAX_LINE_LEN + 1 =
      e.text.length + (1 + (SH_MAX_LINE_LEN - e.text.length)) := by omega
  have hprefix : (List.range e.text.length).map
      (fun i : Nat => (s.store s.cmdLen 0).cmdBuf i) = e.text := by
    apply List.ext_getElem (by simp)
    intro i hi hi'
    have hne : (i : Int) ≠ s.cmdLen := by rw [h.len]; omega
    rw [List.getElem_map, List.getElem_range]
    exact (Function.update_of_ne hne _ _).trans (h.text i hi')
  have hzero : (s.store s.cmdLen 0).cmdBuf e.text.length = 0 := by
    rw [← h.len]
    exact Function.update_self ..
  rw [Shell.cString, hrange, List.range_add, List.map_append, hprefix, List.map_map,
    List.takeWhile_append_of_pos (by simpa [IsString] using hstring), Nat.add_comm 1,
    List.range_succ_eq_map, List.map_cons, List.takeWhile_cons_of_neg (by simp [hzero]),
    List.append_nil]

/-! ## Refinement -/

/-- The first `n` readings of the line. -/
def readings (uart : Nat → Option UInt8) (n : Nat) : List (Option UInt8) :=
  (List.range n).map uart

/-- The variables and what the decoder has made of the readings so far.  While a line waits to
be executed it is still in the buffer. -/
structure Refines (s : Vars) (d : Bool × List Key) : Prop where
  key : s.currentKey = flagWord d.1
  inside : Inside s
  string : IsString (sessionOf d.2).editor.text
  prompt : s.state = .prompt →
    (sessionOf d.2).editor = .empty ∧ (sessionOf d.2).lines = s.handed
  input : s.state = .input →
    Shows s (sessionOf d.2).editor ∧ (sessionOf d.2).lines = s.handed
  exec : s.state = .exec → (sessionOf d.2).editor = .empty ∧
    ∃ e, Shows s e ∧ IsString e.text ∧ (sessionOf d.2).lines = s.handed ++ [e.text]

theorem decodeReadings_succ (uart : Nat → Option UInt8) (n : Nat) :
    decodeReadings (readings uart (n + 1)) =
      decodeReading (decodeReadings (readings uart n)) (uart n) := by
  rw [readings, List.range_succ, List.map_append, decodeReadings, List.foldl_append]
  rfl

theorem sessionOf_append (keys : List Key) (key : Key) :
    sessionOf (keys ++ [key]) = (sessionOf keys).press key := by
  rw [sessionOf, List.foldl_append]
  rfl

/-- The number of readings is not part of the line, and neither is the word of the decoder. -/
theorem Refines.word {s : Vars} {d : Bool × List Key} (h : Refines s d) (n : Nat) {word : UInt32}
    {escape : Bool} (hword : word = flagWord escape) :
    Refines { s with currentKey := word, reads := n } (escape, d.2) where
  key := hword
  inside := h.inside
  string := h.string
  prompt := h.prompt
  input hstate := by
    obtain ⟨hshows, hlines⟩ := h.input hstate
    exact ⟨hshows.congr rfl rfl rfl rfl, hlines⟩
  exec hstate := by
    obtain ⟨hempty, e, hshows, hstring, hlines⟩ := h.exec hstate
    exact ⟨hempty, e, hshows.congr rfl rfl rfl rfl, hstring, hlines⟩

section Step

variable (shellExec : Vars → (Int → UInt8) × Int × Int) {uart : Nat → Option UInt8} {s : Vars}

/-- A key pressed in the input state. -/
theorem refines_press {d : Bool × List Key} (h : Refines s d) (hstate : s.state = .input)
    {key : Key} {escape : Bool} (hkey : ∀ c, key = .char c → c ≠ 0) :
    Refines { s.press key with currentKey := flagWord escape } (escape, d.2 ++ [key]) := by
  obtain ⟨hshows, hlines⟩ := h.input hstate
  by_cases henter : key = .enter
  · subst henter
    refine ⟨rfl, h.inside, ?_, nofun, nofun, fun _ => ?_⟩
    · rw [sessionOf_append]
      exact isString_nil
    · rw [sessionOf_append]
      refine ⟨rfl, (sessionOf d.2).editor, hshows.congr rfl rfl rfl rfl, h.string, ?_⟩
      rw [Session.press, if_pos rfl, hlines]
      rfl
  · have hkeeps := keeps_press s henter
    have hpressed := hshows.press henter
    have hinput : (s.press key).state = .input := hkeeps.state.trans hstate
    refine ⟨rfl, hpressed.inside, ?_, ?_, fun _ => ?_, ?_⟩
    · rw [sessionOf_append]
      exact h.string.press hkey
    · intro hprompt
      exact absurd (hinput.symm.trans hprompt) nofun
    · rw [sessionOf_append]
      refine ⟨hpressed.congr rfl rfl rfl rfl, ?_⟩
      rw [Session.press, if_neg henter]
      exact hlines.trans hkeeps.handed.symm
    · intro hexec
      exact absurd (hinput.symm.trans hexec) nofun

/-- One call. -/
theorem refines_step (h : Refines s (decodeReadings (readings uart s.reads))) :
    Refines (interactive shellExec uart s)
      (decodeReadings (readings uart (interactive shellExec uart s).reads)) := by
  cases hstate : s.state with
  | prompt =>
      obtain ⟨hempty, hlines⟩ := h.prompt hstate
      rw [interactive_prompt shellExec hstate]
      refine ⟨h.key, h.inside, h.string, nofun, fun _ => ⟨?_, hlines⟩, nofun⟩
      show Shows _ (sessionOf (decodeReadings (readings uart s.reads)).2).editor
      rw [hempty]
      exact ⟨rfl, rfl, nofun, h.inside⟩
  | input =>
      obtain ⟨hshows, hlines⟩ := h.input hstate
      have hnext : Refines { s with reads := s.reads + 1 }
          (decodeReadings (readings uart s.reads)) := h.word (s.reads + 1) h.key
      cases hread : uart s.reads with
      | none =>
          rw [interactive_none shellExec hstate hread, decodeReadings_succ, hread]
          exact hnext
      | some c =>
          rw [interactive_some shellExec hstate hread h.key]
          cases hkey : (Key.decode (decodeReadings (readings uart s.reads)).1 c).2 with
          | none =>
              simp only [Option.map_none, Option.getD_none]
              rw [decodeReadings_succ, hread, decodeReading, hkey]
              simp only [Option.toList_none, List.append_nil]
              exact h.word (s.reads + 1) rfl
          | some key =>
              have hchar (c' : UInt8) (hc' : key = .char c') : c' ≠ 0 := by
                rw [hc'] at hkey
                exact Key.decode_char hkey
              have hdecoded : decodeReadings (readings uart
                  (({ s with reads := s.reads + 1 } : Vars).press key).reads) =
                    ((Key.decode (decodeReadings (readings uart s.reads)).1 c).1,
                      (decodeReadings (readings uart s.reads)).2 ++ [key]) := by
                rw [reads_press, decodeReadings_succ, hread, decodeReading, hkey]
                rfl
              simp only [Option.map_some, Option.getD_some]
              rw [hdecoded]
              exact refines_press hnext hstate hchar
  | exec =>
      obtain ⟨hempty, e, hshows, hstring, hlines⟩ := h.exec hstate
      have hinside : Inside (s.store s.cmdLen 0) := by
        have hlen := hshows.len
        have hlimit := e.length_le
        exact h.inside.store 0 (by omega) (by omega)
      rw [interactive_exec shellExec hstate, hshows.cString hstring]
      exact ⟨h.key, hinside, h.string, fun _ => ⟨hempty, hlines⟩, nofun, nofun⟩

/-- Any number of calls. -/
theorem refines_run (h : Refines s (decodeReadings (readings uart s.reads))) (n : Nat) :
    Refines ((interactive shellExec uart)^[n] s)
      (decodeReadings (readings uart ((interactive shellExec uart)^[n] s).reads)) := by
  induction n with
  | zero => exact h
  | succ n ih =>
      rw [Function.iterate_succ_apply']
      exact refines_step shellExec ih

end Step

/-- The variables at the start: the prompt is due, and the rest of the buffer and the line are
whatever they were. -/
def startVars (cmdBuf : Int → UInt8) (cmdPos cmdLen : Int) : Vars where
  cmdBuf := cmdBuf
  cmdPos := cmdPos
  cmdLen := cmdLen
  state := .prompt
  currentKey := 0
  reads := 0
  printed := []
  stores := []
  handed := []

theorem refines_start (uart : Nat → Option UInt8) (cmdBuf : Int → UInt8) (cmdPos cmdLen : Int) :
    Refines (startVars cmdBuf cmdPos cmdLen) (decodeReadings (readings uart 0)) where
  key := rfl
  inside := nofun
  string := isString_nil
  prompt := fun _ => ⟨rfl, rfl⟩
  input := nofun
  exec := nofun

/-- The text in the buffer. -/
def Vars.text (s : Vars) : List UInt8 := (List.range s.cmdLen.toNat).map fun i : Nat => s.cmdBuf i

theorem Shows.text_eq {s : Vars} {e : Editor} (h : Shows s e) : s.text = e.text := by
  have hlen : s.cmdLen.toNat = e.text.length := by rw [h.len, Int.toNat_natCast]
  apply List.ext_getElem (by simp [Vars.text, hlen])
  intro i hi hi'
  simp only [Vars.text, List.getElem_map, List.getElem_range]
  exact h.text i hi'

/-- The cursor is in the text and the text in the buffer. -/
def InBounds (cmdPos cmdLen : Int) : Prop :=
  0 ≤ cmdPos ∧ cmdPos ≤ cmdLen ∧ cmdLen ≤ SH_MAX_LINE_LEN

theorem Shows.inBounds {s : Vars} {e : Editor} (h : Shows s e) : InBounds s.cmdPos s.cmdLen := by
  have hcursor := e.cursor_le
  have hlimit := e.length_le
  rw [h.pos, h.len]
  exact ⟨by omega, by omega, by omega⟩

/-- Bounds that hold when the prompt is due and that executed commands keep hold always. -/
theorem inBounds_run {shellExec : Vars → (Int → UInt8) × Int × Int} (uart : Nat → Option UInt8)
    {cmdBuf : Int → UInt8} {cmdPos cmdLen : Int} (hstart : InBounds cmdPos cmdLen)
    (hexec : ∀ s, InBounds s.cmdPos s.cmdLen → InBounds (shellExec s).2.1 (shellExec s).2.2)
    (n : Nat) :
    InBounds ((interactive shellExec uart)^[n] (startVars cmdBuf cmdPos cmdLen)).cmdPos
      ((interactive shellExec uart)^[n] (startVars cmdBuf cmdPos cmdLen)).cmdLen := by
  induction n with
  | zero => exact hstart
  | succ n ih =>
      have hrefines := refines_run shellExec (refines_start uart cmdBuf cmdPos cmdLen) n
      have hnext := refines_step shellExec hrefines
      rw [Function.iterate_succ_apply']
      generalize (interactive shellExec uart)^[n] (startVars cmdBuf cmdPos cmdLen) = s at *
      cases hstate : s.state with
      | prompt =>
          have hempty : InBounds 0 0 := ⟨by decide, by decide, by decide⟩
          rw [interactive_prompt shellExec hstate]
          exact hempty
      | exec =>
          rw [interactive_exec shellExec hstate]
          exact hexec _ ih
      | input =>
          cases hnextState : (interactive shellExec uart s).state with
          | prompt =>
              exact absurd hnextState (interactive_state shellExec hstate hrefines.key)
          | input => exact (hnext.input hnextState).1.inBounds
          | exec =>
              obtain ⟨-, e, hshows, -⟩ := hnext.exec hnextState
              exact hshows.inBounds

/-- The line editor refines the abstract one, whatever the commands do that are executed.  In
the input state the buffer and the cursor are those of the editor driven by the decoded keys;
where a line is edited or executed the bounds hold, and always if the commands keep them; only
`cmd_buf[0..80]` is written; and what `_shell_exec` is given are the lines that were entered. -/
theorem interactive_refines (shellExec : Vars → (Int → UInt8) × Int × Int)
    (uart : Nat → Option UInt8) (cmdBuf : Int → UInt8) (cmdPos cmdLen : Int) (n : Nat) :
    let s := (interactive shellExec uart)^[n] (startVars cmdBuf cmdPos cmdLen)
    let session := sessionOf (decodeReadings (readings uart s.reads)).2
    (s.state = .input → s.text = session.editor.text ∧ s.cmdPos = session.editor.cursor) ∧
      (s.state ≠ .prompt → InBounds s.cmdPos s.cmdLen) ∧
      (InBounds cmdPos cmdLen →
        (∀ s, InBounds s.cmdPos s.cmdLen → InBounds (shellExec s).2.1 (shellExec s).2.2) →
        InBounds s.cmdPos s.cmdLen) ∧
      Inside s ∧
      (s.state = .exec → session.lines = s.handed ++ [s.text]) ∧
      (s.state ≠ .exec → session.lines = s.handed) := by
  intro s session
  have hrefines : Refines s (decodeReadings (readings uart s.reads)) :=
    refines_run shellExec (refines_start uart cmdBuf cmdPos cmdLen) n
  refine ⟨fun hstate => ?_, fun hstate => ?_, fun hstart hexec => ?_, hrefines.inside,
    fun hstate => ?_, fun hstate => ?_⟩
  · have hshows := (hrefines.input hstate).1
    exact ⟨hshows.text_eq, hshows.pos⟩
  · cases hcases : s.state with
    | prompt => exact absurd hcases hstate
    | input => exact (hrefines.input hcases).1.inBounds
    | exec =>
        obtain ⟨-, e, hshows, -⟩ := hrefines.exec hcases
        exact hshows.inBounds
  · exact inBounds_run uart hstart hexec n
  · obtain ⟨-, e, hshows, -, hlines⟩ := hrefines.exec hstate
    rw [hshows.text_eq]
    exact hlines
  · cases hcases : s.state with
    | prompt => exact (hrefines.prompt hcases).2
    | input => exact (hrefines.input hcases).2
    | exec => exact absurd hcases hstate

end Shell
end WrpcSw
