import WrpcSw.Storage.InitScript
import WrpcSw.Storage.SdbEeprom
import WrpcSw.Storage.I2cEeprom

/-!
# The init script in both storages (`dev/sdb-eeprom.c`, `dev/eeprom.c`)

Both drivers keep the script behind its size, write a command argument by argument
with separators, and patch the last separator.  As long as no access fails they obey
the laws of the boot loop, so both return the lines of a script exactly when all of it
is shorter than the guard of the reader.

* `Sdb.Session`, `Sdb.scriptLaws` — the script in the file of the SDB storage.
* `I2c.scriptLaws` — the script at its address in the older storage.
* `Sdb.lineLaws`, `I2c.lineLaws` — the loops of both readers take one character a round.
* `script_round_trip_iff` — the round trip with both drivers.
-/

namespace WrpcSw
namespace Storage

open Memory CInt

/-- The line replaces its text with the last separator. -/
theorem writeAt_patched (m : Nat → UInt8) (addr : Nat) {args : List (List UInt8)} (h : args ≠ []) :
    writeAt (writeAt m addr (args.flatMap (· ++ [space])))
        (addr + (args.flatMap (· ++ [space])).length - 1) [newline] =
      writeAt m addr (scriptLine args) := by
  have hplace : addr + (List.intercalate [space] args ++ [space]).length - 1 =
      addr + (List.intercalate [space] args).length := by
    rw [List.length_append, List.length_singleton]
    omega
  have hlen : [space].length = [newline].length := rfl
  rw [flatMap_space_eq h, hplace, ← writeAt_append, writeAt_writeAt_same _ _ _ hlen,
    writeAt_append, scriptLine]

theorem length_flatMap_space {args : List (List UInt8)} (h : args ≠ []) :
    (args.flatMap (· ++ [space])).length = (scriptLine args).length := by
  rw [flatMap_space_eq h, scriptLine, List.length_append, List.length_append]
  rfl

/-- A line and the new size, written behind a script, make a longer script. -/
theorem holdsAt_add_line {m : Nat → UInt8} {addr : Nat} {bytes line : List UInt8}
    (h : HoldsAt m addr (sizeBytes bytes.length ++ bytes)) :
    HoldsAt (writeAt (writeAt m (addr + (2 + bytes.length)) line) addr
      (sizeBytes (bytes ++ line).length)) addr
      (sizeBytes (bytes ++ line).length ++ (bytes ++ line)) := by
  obtain ⟨-, hbytes⟩ := h.split
  rw [length_sizeBytes] at hbytes
  apply HoldsAt.written.append
  rw [length_sizeBytes]
  refine HoldsAt.write ?_ (Or.inr (by rw [length_sizeBytes]))
  apply HoldsAt.append (hbytes.write (Or.inl (by omega)))
  rw [Nat.add_assoc]
  exact HoldsAt.written

/-- Where a line of the script is. -/
theorem holdsAt_line {m : Nat → UInt8} {addr n : Nat} {before line later : List UInt8}
    (h : HoldsAt m addr (sizeBytes n ++ (before ++ line ++ later))) :
    HoldsAt m (addr + (2 + before.length)) line := by
  have hline := h.split.2.split.1.split.2
  rwa [length_sizeBytes, Nat.add_assoc] at hline

/-- A line starts inside the script. -/
theorem line_start_lt (before text later : List UInt8) :
    before.length < (before ++ (text ++ [newline]) ++ later).length := by
  simp only [List.length_append, List.length_singleton]
  omega

/-- The size in front of the script. -/
theorem sizeOf16_script {m : Nat → UInt8} {addr : Nat} {bytes : List UInt8}
    (h : HoldsAt m addr (sizeBytes bytes.length ++ bytes)) (hfits : bytes.length ≤ 254) :
    sizeOf16 (readAt m addr 2) = bytes.length := by
  have hhead := h.split.1
  rw [HoldsAt, length_sizeBytes] at hhead
  rw [hhead, sizeOf16_sizeBytes (by omega)]

/-! ## The file of the SDB storage -/

namespace Sdb

/-- The file of the script is in the directory, and no access fails. -/
structure Stored (s : Eeprom) (base len : Nat) (m : Nat → UInt8) : Prop where
  file : s.vol.files sdbDevInit = some (base, len)
  ready : ∀ o ∈ s.vol.dev.outcomes, o = .ok
  mem : s.vol.dev.mem = m

/-- The file is open. -/
structure Session (s : Eeprom) (base len : Nat) (m : Nat → UInt8) : Prop where
  stored : Stored s base len m
  opened : s.vol.Open base len

theorem Stored.outcome {s : Eeprom} {base len : Nat} {m : Nat → UInt8} (h : Stored s base len m) :
    s.vol.dev.outcome = .ok := by
  have hready := h.ready
  unfold Device.outcome
  cases hout : s.vol.dev.outcomes with
  | nil => rfl
  | cons o os => exact hready o (hout ▸ List.mem_cons_self ..)

section Session

variable {s : Eeprom} {base len pos : Nat} {m : Nat → UInt8}

theorem openId_session (h : Stored s base len m) :
    ∃ w, s.openId sdbDevInit = ({ s with vol := w }, true) ∧
      Session { s with vol := w } base len m := by
  rcases openId_cases h.file with ⟨w, hopen, hw, hdev, hfiles, -⟩ | ⟨-, hfail⟩
  · refine ⟨w, hopen, ⟨⟨(congrFun hfiles _).trans h.file, ?_, ?_⟩, hw⟩⟩
    · show ∀ o ∈ w.dev.outcomes, o = .ok
      rw [hdev]
      exact fun o ho => h.ready o (List.mem_of_mem_tail ho)
    · show w.dev.mem = m
      rw [hdev]
      exact h.mem
  · exact absurd h.outcome hfail

/-- What an access of the open file keeps. -/
theorem Session.kept (h : Session s base len m) {w : Volume} (hkept : s.vol.Kept w base len)
    {m' : Nat → UInt8} (hmem : w.dev.mem = m') : Session { s with vol := w } base len m' := by
  refine ⟨⟨(congrFun hkept.files _).trans h.stored.file, ?_, hmem⟩, hkept.opened⟩
  show ∀ o ∈ w.dev.outcomes, o = .ok
  rw [hkept.outcomes]
  exact fun o ho => h.stored.ready o (List.mem_of_mem_tail ho)

theorem fread_session (h : Session s base len m) (offset count : Nat)
    (hin : offset + count ≤ len) :
    ∃ w, s.fread offset count = ({ s with vol := w }, true, readAt m (base + offset) count) ∧
      Session { s with vol := w } base len m := by
  obtain ⟨w, ok, bytes, hread, hkept, hmem, hok, hbytes⟩ := fread_cases h.opened offset count hin
  have hok := hok.mpr h.stored.outcome
  subst hok
  rw [hbytes rfl, h.stored.mem] at hread
  exact ⟨w, hread, h.kept hkept (hmem.trans h.stored.mem)⟩

theorem fwrite_session (h : Session s base len m) (offset : Nat) (buf : List UInt8)
    (hin : offset + buf.length ≤ len) :
    ∃ w, s.fwrite offset buf = ({ s with vol := w }, true) ∧
      Session { s with vol := w } base len (writeAt m (base + offset) buf) := by
  obtain ⟨w, ok, stored, hwrite, hkept, hmem, hok, hstored⟩ := fwrite_cases h.opened offset buf hin
  have hok := hok.mpr h.stored.outcome
  subst hok
  rw [hstored rfl, List.take_length, h.stored.mem] at hmem
  exact ⟨w, hwrite, h.kept hkept hmem⟩

theorem Session.close (h : Session s base len m) : Stored s.close base len m :=
  ⟨h.stored.file, h.stored.ready, h.stored.mem⟩

/-- The loop over the arguments writes all of them, with their separators. -/
theorem writeArgs_session (args : List (List UInt8)) (h : Session s base len m) (used : Nat)
    (hin : 2 + used + (args.flatMap (· ++ [space])).length ≤ len)
    (hlt : used + (args.flatMap (· ++ [space])).length < 65536) :
    ∃ w, writeArgs s used args =
        ({ s with vol := w }, some (used + (args.flatMap (· ++ [space])).length)) ∧
      Session { s with vol := w } base len
        (writeAt m (base + (2 + used)) (args.flatMap (· ++ [space]))) := by
  induction args generalizing s m used with
  | nil => exact ⟨s.vol, rfl, by rw [List.flatMap_nil, writeAt_nil]; exact h⟩
  | cons arg args ih =>
      rw [List.flatMap_cons] at hin hlt ⊢
      simp only [List.length_append, List.length_singleton] at hin hlt
      have hu : u16 (used + arg.length) = used + arg.length := u16_eq_self (by omega)
      have hu' : u16 (used + arg.length + 1) = used + arg.length + 1 := u16_eq_self (by omega)
      obtain ⟨w, hwrite, hw⟩ := fwrite_session h (2 + used) arg (by omega)
      obtain ⟨w', hwrite', hw'⟩ := fwrite_session hw (2 + (used + arg.length)) [space]
        (by rw [List.length_singleton]; omega)
      obtain ⟨w'', hrest, hw''⟩ := ih hw' (used + arg.length + 1) (by omega) (by omega)
      refine ⟨w'', ?_, ?_⟩
      · simp only [writeArgs, hwrite, hu, hwrite', hu', hrest, Bool.not_true, Bool.false_eq_true,
          if_false, List.length_append, List.length_singleton]
        congr 2
        omega
      -- an argument and its separator are one block of the spaced text
      · have hplace : base + (2 + (used + arg.length)) = base + (2 + used) + arg.length := by omega
        have hplace' : base + (2 + (used + arg.length + 1)) =
            base + (2 + used) + (arg ++ [space]).length := by
          rw [List.length_append, List.length_singleton]
          omega
        rw [hplace, writeAt_append, hplace', writeAt_append] at hw''
        exact hw''

/-- The file is open and the next character is the one at `pos`. -/
def AtChar (base len : Nat) (m : Nat → UInt8) (s : Eeprom) (pos : Nat) : Prop :=
  Session s base len m ∧ s.ptr = pos

/-- One character of a line. -/
theorem readLine_step (h : AtChar base len m s pos) (hin : pos + 1 ≤ len) (hlt : pos + 1 < 65536)
    (buf : List UInt8) (room : Nat) :
    ∃ s', AtChar base len m s' (pos + 1) ∧
      readLine s buf (room + 1) =
        if m (base + pos) = newline then (s', ((buf.length + 1 : Nat) : Int), buf ++ [newline])
        else readLine s' (buf ++ [m (base + pos)]) room := by
  obtain ⟨hs, rfl⟩ := h
  obtain ⟨w, hread, hw⟩ := fread_session hs s.ptr 1 hin
  refine ⟨{ s with vol := w, ptr := s.ptr + 1 },
    ⟨⟨⟨hw.stored.file, hw.stored.ready, hw.stored.mem⟩, hw.opened⟩, rfl⟩, ?_⟩
  simp only [readLine, hread, readAt_one, u16_eq_self hlt, Bool.not_true, Bool.false_eq_true,
    if_false, List.length_append, List.length_singleton]
  by_cases hc : m (base + s.ptr) = newline
  · rw [if_pos hc, if_pos (by rw [hc]), hc]
  · rw [if_neg hc, if_neg fun heq => hc (List.cons.inj heq).1]

theorem lineLaws (hlen : 256 ≤ len) :
    LineLaws readLine (fun n => (n : Int)) (-1) m base 256 (AtChar base len m) where
  stop _ _ := rfl
  step h hin := readLine_step h (by omega) (by omega)

end Session

/-! ### The laws of the boot loop -/

/-- The script of the storage is `bytes`. -/
def HoldsScript (base len : Nat) (s : Eeprom) (bytes : List UInt8) : Prop :=
  bytes.length ≤ 254 ∧
    ∃ m, Stored s base len m ∧ HoldsAt m base (sizeBytes bytes.length ++ bytes)

/-- A call with `next` continues at `pos`. -/
def AtScript (base len : Nat) (next : Bool) (s : Eeprom) (bytes : List UInt8) (pos : Nat) : Prop :=
  HoldsScript base len s bytes ∧ if next then s.ptr = 2 + pos else pos = 0

def scriptDriver : ScriptDriver Eeprom where
  erase s := (eepromInitErase s).1
  add s args := (eepromInitAdd s args).1
  readcmd := eepromInitReadcmd

section Laws

variable {s : Eeprom} {base len : Nat} (hlen : 256 ≤ len)

include hlen in
theorem holds_erase {m : Nat → UInt8} (h : Stored s base len m) :
    HoldsScript base len (scriptDriver.erase s) [] := by
  obtain ⟨w, hopen, hw⟩ := openId_session h
  obtain ⟨w', hwrite, hw'⟩ := fwrite_session hw 0 (sizeBytes 0) (by rw [length_sizeBytes]; omega)
  refine ⟨Nat.zero_le _, writeAt m base (sizeBytes 0), ?_, ?_⟩
  · show Stored (eepromInitErase s).1 base len _
    simp only [eepromInitErase, hopen, hwrite, Bool.not_true, Bool.false_eq_true, if_false]
    exact hw'.close
  · rw [List.append_nil]
    exact HoldsAt.written

include hlen in
theorem holds_add {bytes : List UInt8} {args : List (List UInt8)}
    (h : HoldsScript base len s bytes) (hargs : args ≠ [])
    (hfits : (bytes ++ scriptLine args).length ≤ 254) :
    HoldsScript base len (scriptDriver.add s args) (bytes ++ scriptLine args) := by
  obtain ⟨hbytes, m, hstored, hholds⟩ := h
  refine ⟨hfits, _, ?_, holdsAt_add_line hholds⟩
  rw [List.length_append, ← length_flatMap_space hargs] at hfits
  have hsize : sizeOf16 (readAt m (base + 0) 2) = bytes.length := sizeOf16_script hholds hbytes
  -- the accesses in their order: size, arguments, newline, new size, size again
  obtain ⟨w, hopen, hw⟩ := openId_session hstored
  obtain ⟨w₁, hread, hw₁⟩ := fread_session hw 0 2 (by omega)
  obtain ⟨w₂, hwritten, hw₂⟩ := writeArgs_session args hw₁ bytes.length (by omega)
    (by omega)
  obtain ⟨w₃, hpatch, hw₃⟩ := fwrite_session hw₂
    (2 + (bytes.length + (args.flatMap (· ++ [space])).length) - 1) [newline]
    (by rw [List.length_singleton]; omega)
  obtain ⟨w₄, hused, hw₄⟩ := fwrite_session hw₃ 0
    (sizeBytes (bytes.length + (args.flatMap (· ++ [space])).length))
    (by rw [length_sizeBytes]; omega)
  obtain ⟨w₅, hreadback, hw₅⟩ := fread_session hw₄ 0 2 (by omega)
  have hused' : ¬ bytes.length > 256 := by omega
  have hplace : base + (2 + (bytes.length + (args.flatMap (· ++ [space])).length) - 1) =
      base + (2 + bytes.length) + (args.flatMap (· ++ [space])).length - 1 := by
    rw [length_flatMap_space hargs]
    omega
  have hmem := hw₅.close
  rw [hplace, writeAt_patched _ _ hargs, length_flatMap_space hargs, ← List.length_append] at hmem
  show Stored (eepromInitAdd s args).1 base len _
  simp only [eepromInitAdd, hopen, hread, hsize, if_neg hused', hwritten, hpatch, hused,
    hreadback, Bool.not_true, Bool.false_eq_true, if_false]
  exact hmem

include hlen in
/-- A call reads the size, and from its position on, what the guard leaves. -/
theorem readcmd_eq {next : Bool} {bytes : List UInt8} {pos : Nat}
    (h : AtScript base len next s bytes pos) (hpos : pos ≤ bytes.length) :
    ∃ w m, HoldsAt m base (sizeBytes bytes.length ++ bytes) ∧
      Session { s with vol := w, ptr := 2 + pos } base len m ∧
      eepromInitReadcmd s shMaxLineLen next =
        if bytes.length ≤ pos then ({ s with vol := w, ptr := 2 + pos }, 0, [])
        else
          let r := readLine { s with vol := w, ptr := 2 + pos } [] (shMaxLineLen + 1 - pos)
          (r.1.close, i8 r.2.1, r.2.2) := by
  obtain ⟨⟨hbytes, m, hstored, hholds⟩, hat⟩ := h
  obtain ⟨w, hopen, hw⟩ := openId_session hstored
  obtain ⟨w₁, hread, hw₁⟩ := fread_session hw 0 2 (by omega)
  have hsize : sizeOf16 (readAt m (base + 0) 2) = bytes.length := sizeOf16_script hholds hbytes
  -- `next` decides whether the static position is kept
  have hstart : (if next then ({ s with vol := w₁ } : Eeprom) else { s with vol := w₁, ptr := 2 }) =
      { s with vol := w₁, ptr := 2 + pos } := by
    cases next with
    | true =>
        have hptr : s.ptr = 2 + pos := hat
        rw [if_pos rfl, ← hptr]
    | false =>
        have hzero : pos = 0 := hat
        rw [if_neg Bool.false_ne_true, hzero]
  have hscript : scriptPos (2 + pos) = pos := by
    unfold scriptPos
    omega
  refine ⟨w₁, m, hholds, ⟨⟨hw₁.stored.file, hw₁.stored.ready, hw₁.stored.mem⟩, hw₁.opened⟩, ?_⟩
  simp only [eepromInitReadcmd, hopen, hread, hsize, hstart, hscript, ge_iff_le, Bool.not_true,
    Bool.false_eq_true, if_false]

include hlen in
/-- A call at the start of a line reads that line. -/
theorem readcmd_line {next : Bool} {before text later : List UInt8}
    (h : AtScript base len next s (before ++ (text ++ [newline]) ++ later) before.length) :
    ∃ t m, HoldsAt m base (sizeBytes (before ++ (text ++ [newline]) ++ later).length ++
        (before ++ (text ++ [newline]) ++ later)) ∧
      AtChar base len m t (2 + before.length) ∧
      eepromInitReadcmd s shMaxLineLen next =
        let r := readLine t [] (shMaxLineLen + 1 - before.length)
        (r.1.close, i8 r.2.1, r.2.2) := by
  obtain ⟨w, m, hholds, hw, hret⟩ := readcmd_eq hlen h
    (Nat.le_of_lt (line_start_lt before text later))
  rw [if_neg (Nat.not_le_of_lt (line_start_lt before text later))] at hret
  exact ⟨_, m, hholds, ⟨hw, rfl⟩, hret⟩

include hlen in
theorem scriptLaws : ScriptLaws scriptDriver (HoldsScript base len) (AtScript base len) where
  add h hargs hfits := holds_add hlen h hargs hfits
  start h := ⟨h, rfl⟩
  finish h := by
    obtain ⟨w, m, -, -, hret⟩ := readcmd_eq hlen h le_rfl
    show (eepromInitReadcmd _ shMaxLineLen _).2 = _
    rw [hret, if_pos le_rfl]
  read := by
    intro next s before text later h hnewline hshort hroom
    have hbytes := h.1.1
    simp only [List.length_append, List.length_singleton] at hbytes
    obtain ⟨t, m, hholds, hat, hret⟩ := readcmd_line hlen h
    obtain ⟨s', ⟨hs', hptr⟩, hline⟩ := (lineLaws hlen).reads hat (holdsAt_line hholds)
      hnewline (by omega) (show text.length < shMaxLineLen + 1 - before.length by omega) []
    have hcount : ([] : List UInt8).length + text.length + 1 = text.length + 1 := by
      rw [List.length_nil, Nat.zero_add]
    have hi8 : i8 ((text.length + 1 : Nat) : Int) = ((text.length + 1 : Nat) : Int) :=
      i8_eq_self (by omega) (by omega)
    rw [hline, hcount] at hret
    show (eepromInitReadcmd s shMaxLineLen next).2 = _ ∧
      AtScript base len true (eepromInitReadcmd s shMaxLineLen next).1 _ _
    rw [hret]
    refine ⟨Prod.ext hi8 rfl, ⟨h.1.1, m, hs'.close, hholds⟩, ?_⟩
    show s'.ptr = 2 + (before ++ (text ++ [newline])).length
    simp only [hptr, List.length_append, List.length_singleton]
    omega
  cut := by
    intro next s before text later h hnewline hlong
    have hbytes := h.1.1
    simp only [List.length_append, List.length_singleton] at hbytes
    obtain ⟨t, m, hholds, hat, hret⟩ := readcmd_line hlen h
    have hcut := (lineLaws hlen).refuses hat (holdsAt_line hholds).split.1 hnewline
      (by omega) (show shMaxLineLen + 1 - before.length ≤ text.length by omega) []
    show (eepromInitReadcmd s shMaxLineLen next).2.1 < 0
    rw [hret]
    show i8 _ < 0
    rw [hcut]
    decide

end Laws

end Sdb

/-! ## The address of the older storage -/

namespace I2c

section Access

variable {s : Eeprom} (h : s.hasEeprom = true)

include h in
/-- The loop over the arguments writes all of them, with their separators. -/
theorem writeArgs_eq (args : List (List UInt8)) (used : Nat)
    (hin : eeBaseInit + 2 + used + (args.flatMap (· ++ [space])).length ≤ 65536) :
    writeArgs s used args =
      ({ s with mem := writeAt s.mem (eeBaseInit + 2 + used) (args.flatMap (· ++ [space])) },
        some (used + (args.flatMap (· ++ [space])).length)) := by
  induction args generalizing s used with
  | nil =>
      rw [List.flatMap_nil, writeAt_nil]
      rfl
  | cons arg args ih =>
      rw [List.flatMap_cons] at hin ⊢
      simp only [List.length_append, List.length_singleton] at hin
      have hbase : eeBaseInit = 4212 := rfl
      have hu : u16 (used + arg.length) = used + arg.length := u16_eq_self (by omega)
      have hu' : u16 (used + arg.length + 1) = used + arg.length + 1 := u16_eq_self (by omega)
      have hwrite : s.write (eeBaseInit + 2 + used) arg =
          ({ s with mem := writeAt s.mem (eeBaseInit + 2 + used) arg }, true) :=
        write_eq h _ _ (by omega)
      have hwrite' : ({ s with mem := writeAt s.mem (eeBaseInit + 2 + used) arg } : Eeprom).write
          (eeBaseInit + 2 + (used + arg.length)) [space] =
          ({ s with mem := writeAt s.mem (eeBaseInit + 2 + used) (arg ++ [space]) }, true) := by
        rw [write_eq (s := { s with mem := writeAt s.mem (eeBaseInit + 2 + used) arg }) h _ _
          (by rw [List.length_singleton]; omega), ← Nat.add_assoc, writeAt_append]
      have hplace : eeBaseInit + 2 + (used + arg.length + 1) =
          eeBaseInit + 2 + used + (arg ++ [space]).length := by
        rw [List.length_append, List.length_singleton]
        omega
      have hrest := ih (s := { s with
        mem := writeAt s.mem (eeBaseInit + 2 + used) (arg ++ [space]) }) h
        (used + arg.length + 1) (by omega)
      have hcount : used + arg.length + 1 + (args.flatMap (· ++ [space])).length =
          used + (arg ++ [space] ++ args.flatMap (· ++ [space])).length := by
        simp only [List.length_append, List.length_singleton]
        omega
      rw [hplace, writeAt_append, hcount] at hrest
      simp only [writeArgs, hwrite, hu, hwrite', hu', Bool.not_true, Bool.false_eq_true, if_false]
      exact hrest

/-- The next character is the one at `pos`. -/
structure AtChar (m : Nat → UInt8) (used : Nat) (s : Eeprom) (pos : Nat) : Prop where
  eeprom : s.hasEeprom = true
  mem : s.mem = m
  used : s.used = used
  ptr : s.ptr = pos

theorem lineLaws {m : Nat → UInt8} {used : Nat} :
    LineLaws readLine readLine.u8Count eeRetCorrpt m eeBaseInit 256 (AtChar m used) where
  stop _ _ := rfl
  step := by
    intro s pos h hin buf room
    have hbase : eeBaseInit = 4212 := rfl
    obtain ⟨heeprom, rfl, hused, rfl⟩ := h
    refine ⟨{ s with
      reads := s.reads ++ (List.range 1).map fun i => eeBaseInit + s.ptr + i
      ptr := s.ptr + 1 }, ⟨heeprom, rfl, hused, rfl⟩, ?_⟩
    simp only [readLine, read_eq heeprom _ _ (show eeBaseInit + s.ptr + 1 ≤ 65536 by omega),
      readAt_one, u16_eq_self (show s.ptr + 1 < 65536 by omega), List.length_append,
      List.length_singleton]
    by_cases hc : s.mem (eeBaseInit + s.ptr) = newline
    · rw [if_pos hc, if_pos (by rw [hc]), hc]
    · rw [if_neg hc, if_neg fun heq => hc (List.cons.inj heq).1]

end Access

/-! ### The laws of the boot loop -/

/-- The script of the storage is `bytes`. -/
structure HoldsScript (s : Eeprom) (bytes : List UInt8) : Prop where
  eeprom : s.hasEeprom = true
  fits : bytes.length ≤ 254
  holds : HoldsAt s.mem eeBaseInit (sizeBytes bytes.length ++ bytes)

/-- A call with `next` continues at `pos`. -/
def AtScript (next : Bool) (s : Eeprom) (bytes : List UInt8) (pos : Nat) : Prop :=
  HoldsScript s bytes ∧ if next then s.ptr = 2 + pos ∧ s.used = bytes.length else pos = 0

def scriptDriver : ScriptDriver Eeprom where
  erase s := (eepromInitErase s).1
  add s args := (eepromInitAdd s args).1
  readcmd := eepromInitReadcmd

section Laws

variable {s : Eeprom}

theorem holds_erase (h : s.hasEeprom = true) : HoldsScript (scriptDriver.erase s) [] := by
  have herase : (eepromInitErase s).1 =
      { s with mem := writeAt s.mem eeBaseInit (sizeBytes 0) } := by
    rw [eepromInitErase, write_eq h _ _ (by decide)]
  show HoldsScript (eepromInitErase s).1 []
  rw [herase]
  refine ⟨h, Nat.zero_le _, ?_⟩
  rw [List.append_nil]
  exact HoldsAt.written

/-- An add writes the line behind the script, and the new size. -/
theorem eepromInitAdd_eq (h : s.hasEeprom = true) {args : List (List UInt8)} (hargs : args ≠ [])
    {used : Nat} (hused : sizeOf16 (readAt s.mem eeBaseInit 2) = used)
    (hin : eeBaseInit + 2 + used + (scriptLine args).length ≤ 65536) :
    ∃ log, eepromInitAdd s args =
      ({ s with
          mem := writeAt (writeAt s.mem (eeBaseInit + (2 + used)) (scriptLine args)) eeBaseInit
            (sizeBytes (used + (scriptLine args).length))
          reads := log }, 0) := by
  have hbase : eeBaseInit = 4212 := rfl
  have hblank : used ≠ 0xffff := by omega
  have hspaced := length_flatMap_space hargs
  have hline : 0 < (scriptLine args).length := by
    rw [scriptLine, List.length_append, List.length_singleton]
    omega
  obtain ⟨log, hlog⟩ : ∃ log, log = s.reads ++ (List.range 2).map fun i => eeBaseInit + i :=
    ⟨_, rfl⟩
  have hread := read_eq h eeBaseInit 2 (by omega)
  rw [← hlog] at hread
  have hwritten := writeArgs_eq (s := { s with reads := log }) h args used (by omega)
  obtain ⟨m, hm⟩ : ∃ m, m = writeAt s.mem (eeBaseInit + 2 + used) (args.flatMap (· ++ [space])) :=
    ⟨_, rfl⟩
  rw [← hm, hspaced] at hwritten
  -- the newline replaces the last separator
  have hpatch := write_eq (s := { s with mem := m, reads := log }) h
    (eeBaseInit + 2 + (used + (scriptLine args).length) - 1) [newline]
    (by rw [List.length_singleton]; omega)
  have hmem : writeAt m (eeBaseInit + 2 + (used + (scriptLine args).length) - 1) [newline] =
      writeAt s.mem (eeBaseInit + (2 + used)) (scriptLine args) := by
    have hplace : eeBaseInit + 2 + (used + (scriptLine args).length) - 1 =
        eeBaseInit + 2 + used + (args.flatMap (· ++ [space])).length - 1 := by omega
    rw [hplace, hm, writeAt_patched _ _ hargs, Nat.add_assoc]
  have hsize := write_eq
    (s := { s with
      mem := writeAt s.mem (eeBaseInit + (2 + used)) (scriptLine args), reads := log }) h
    eeBaseInit (sizeBytes (used + (scriptLine args).length)) (by rw [length_sizeBytes]; omega)
  have hreadback := read_eq (s := { s with
    mem := writeAt (writeAt s.mem (eeBaseInit + (2 + used)) (scriptLine args)) eeBaseInit
      (sizeBytes (used + (scriptLine args).length)), reads := log }) h eeBaseInit 2 (by omega)
  refine ⟨log ++ (List.range 2).map fun i => eeBaseInit + i, ?_⟩
  simp only [eepromInitAdd, hread, hused, if_neg hblank, hwritten, hpatch, hmem, hsize,
    hreadback, Bool.not_true, Bool.false_eq_true, if_false, Option.isSome_some, if_true]

theorem holds_add {bytes : List UInt8} {args : List (List UInt8)}
    (h : HoldsScript s bytes) (hargs : args ≠ [])
    (hfits : (bytes ++ scriptLine args).length ≤ 254) :
    HoldsScript (scriptDriver.add s args) (bytes ++ scriptLine args) := by
  have hbase : eeBaseInit = 4212 := rfl
  have hsum : (bytes ++ scriptLine args).length = bytes.length + (scriptLine args).length :=
    List.length_append
  obtain ⟨log, hadd⟩ := eepromInitAdd_eq h.eeprom hargs (sizeOf16_script h.holds h.fits) (by omega)
  show HoldsScript (eepromInitAdd s args).1 _
  rw [hadd, ← hsum]
  exact ⟨h.eeprom, hfits, holdsAt_add_line h.holds⟩

/-- A call reads, from its position on, what the guard leaves. -/
theorem readcmd_eq {next : Bool} {bytes : List UInt8} {pos : Nat}
    (h : AtScript next s bytes pos) (hpos : pos ≤ bytes.length) :
    ∃ log, eepromInitReadcmd s shMaxLineLen next =
      if bytes.length ≤ pos then
        ({ s with reads := log, used := bytes.length, ptr := 2 + pos }, 0, [])
      else
        let r := readLine { s with reads := log, used := bytes.length, ptr := 2 + pos } []
          (shMaxLineLen + 1 - pos)
        (r.1, i8 r.2.1, r.2.2) := by
  obtain ⟨hholds, hat⟩ := h
  have hbase : eeBaseInit = 4212 := rfl
  have hfits := hholds.fits
  have hscript : scriptPos (2 + pos) = pos := by
    unfold scriptPos
    omega
  cases next with
  | true =>
      obtain ⟨hptr, hused⟩ : s.ptr = 2 + pos ∧ s.used = bytes.length := hat
      have hsame : s = { s with reads := s.reads, used := bytes.length, ptr := 2 + pos } := by
        rw [← hptr, ← hused]
      refine ⟨s.reads, ?_⟩
      rw [← hsame]
      simp only [eepromInitReadcmd, hptr, hused, hscript, ge_iff_le, if_true, Bool.not_true,
        Bool.false_eq_true, if_false]
  | false =>
      have hzero : pos = 0 := hat
      subst hzero
      refine ⟨s.reads ++ (List.range 2).map fun i => eeBaseInit + i, ?_⟩
      simp only [eepromInitReadcmd, read_eq hholds.eeprom eeBaseInit 2 (by omega),
        sizeOf16_script hholds.holds hholds.fits, Bool.false_eq_true, if_false, Bool.not_true,
        Nat.add_zero, ge_iff_le]
      rfl

/-- A call at the start of a line reads that line. -/
theorem readcmd_line {next : Bool} {before text later : List UInt8}
    (h : AtScript next s (before ++ (text ++ [newline]) ++ later) before.length) :
    ∃ t, AtChar s.mem (before ++ (text ++ [newline]) ++ later).length t (2 + before.length) ∧
      eepromInitReadcmd s shMaxLineLen next =
        let r := readLine t [] (shMaxLineLen + 1 - before.length)
        (r.1, i8 r.2.1, r.2.2) := by
  obtain ⟨log, hret⟩ := readcmd_eq h (Nat.le_of_lt (line_start_lt before text later))
  rw [if_neg (Nat.not_le_of_lt (line_start_lt before text later))] at hret
  exact ⟨{ s with reads := log, used := _, ptr := 2 + before.length },
    ⟨h.1.eeprom, rfl, rfl, rfl⟩, hret⟩

theorem scriptLaws : ScriptLaws scriptDriver HoldsScript AtScript where
  add h hargs hfits := holds_add h hargs hfits
  start h := ⟨h, rfl⟩
  finish h := by
    obtain ⟨log, hret⟩ := readcmd_eq h le_rfl
    show (eepromInitReadcmd _ shMaxLineLen _).2 = _
    rw [hret, if_pos le_rfl]
  read := by
    intro next s before text later h hnewline hshort hroom
    have hbytes := h.1.fits
    simp only [List.length_append, List.length_singleton] at hbytes
    obtain ⟨t, hat, hret⟩ := readcmd_line h
    obtain ⟨s', hs', hline⟩ := lineLaws.reads hat (holdsAt_line h.1.holds)
      hnewline (by omega) (show text.length < shMaxLineLen + 1 - before.length by omega) []
    have hcount : i8 (readLine.u8Count (([] : List UInt8).length + text.length + 1)) =
        ((text.length + 1 : Nat) : Int) := by
      rw [List.length_nil, Nat.zero_add, readLine.u8Count, Nat.mod_eq_of_lt (by omega)]
      exact i8_eq_self (by omega) (by omega)
    rw [hline] at hret
    show (eepromInitReadcmd s shMaxLineLen next).2 = _ ∧
      AtScript true (eepromInitReadcmd s shMaxLineLen next).1 _ _
    rw [hret]
    refine ⟨Prod.ext hcount rfl, ⟨hs'.eeprom, h.1.fits, ?_⟩, ?_, hs'.used⟩
    · rw [hs'.mem]
      exact h.1.holds
    · show s'.ptr = 2 + (before ++ (text ++ [newline])).length
      simp only [hs'.ptr, List.length_append, List.length_singleton]
      omega
  cut := by
    intro next s before text later h hnewline hlong
    have hbytes := h.1.fits
    simp only [List.length_append, List.length_singleton] at hbytes
    obtain ⟨t, hat, hret⟩ := readcmd_line h
    have hcut := lineLaws.refuses hat (holdsAt_line h.1.holds).split.1
      hnewline (by omega) (show shMaxLineLen + 1 - before.length ≤ text.length by omega) []
    show (eepromInitReadcmd s shMaxLineLen next).2.1 < 0
    rw [hret]
    show i8 _ < 0
    rw [hcut]
    decide

end Laws

end I2c

/-! ## The round trip -/

/-- With both drivers, and no access failing, the lines of a script come back exactly
when the whole script passes the guard of the reader. -/
theorem script_round_trip_iff {sdb : Sdb.Eeprom} {base len : Nat} {m : Nat → UInt8}
    (hsdb : Sdb.Stored sdb base len m) (hlen : 256 ≤ len) {i2c : I2c.Eeprom}
    (hi2c : i2c.hasEeprom = true) {script : List (List (List UInt8))} (h : ScriptOk script) :
    (RoundTrip Sdb.scriptDriver sdb script ↔
        (script.flatMap scriptLine).length ≤ shMaxLineLen + 1) ∧
      (RoundTrip I2c.scriptDriver i2c script ↔
        (script.flatMap scriptLine).length ≤ shMaxLineLen + 1) :=
  ⟨roundTrip_iff (Sdb.scriptLaws hlen) (Sdb.holds_erase hlen hsdb) h,
    roundTrip_iff I2c.scriptLaws (I2c.holds_erase hi2c) h⟩

/-- A blank storage with a file for the script. -/
def blankFiles : Sdb.Eeprom where
  vol :=
    { dev := { mem := fun _ => 0xff }
      files := fun did => if did = Sdb.sdbDevInit then some (0, 256) else none }

def blankEeprom : I2c.Eeprom where
  mem _ := 0xff

theorem blankFiles_stored : Sdb.Stored blankFiles 0 256 fun _ => 0xff :=
  ⟨rfl, fun _ ho => absurd ho List.not_mem_nil, rfl⟩

/-- A script of one short command. -/
def shortScript : List (List (List UInt8)) := [[[112, 116, 112], [115, 116, 111, 112]]]

theorem script_round_trip_iff_short :
    (RoundTrip Sdb.scriptDriver blankFiles shortScript ↔
        (shortScript.flatMap scriptLine).length ≤ shMaxLineLen + 1) ∧
      (RoundTrip I2c.scriptDriver blankEeprom shortScript ↔
        (shortScript.flatMap scriptLine).length ≤ shMaxLineLen + 1) :=
  script_round_trip_iff blankFiles_stored le_rfl rfl
    ⟨by decide, by decide, by decide, by decide⟩

/-- Two commands of 49 characters. -/
def longScript : List (List (List UInt8)) := [[List.replicate 49 97], [List.replicate 49 97]]

/-- The second line of such a script does not come back. -/
theorem long_script_refused :
    ScriptOk longScript ∧ ¬ RoundTrip Sdb.scriptDriver blankFiles longScript ∧
      ¬ RoundTrip I2c.scriptDriver blankEeprom longScript := by
  have hscript : ScriptOk longScript := ⟨by decide, by decide, by decide, by decide⟩
  have hlong : ¬ (longScript.flatMap scriptLine).length ≤ shMaxLineLen + 1 := by decide
  have hsdb := roundTrip_iff (Sdb.scriptLaws le_rfl) (Sdb.holds_erase le_rfl blankFiles_stored)
    hscript
  have hi2c := roundTrip_iff I2c.scriptLaws (I2c.holds_erase (s := blankEeprom) rfl) hscript
  exact ⟨hscript, fun h => hlong (hsdb.mp h), fun h => hlong (hi2c.mp h)⟩

end Storage
end WrpcSw
