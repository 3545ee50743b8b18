import WrpcSw.Shell.LineEditor
import WrpcSw.Storage.I2cEeprom

/-!
# The boot script and the variables of the line editor (`shell/shell.c`)

`shell_boot_script` reads the lines of the init script into `cmd_buf`, and their lengths into
`cmd_len`, and executes them.  It runs before the main loop and in the command `init boot`.
What it leaves in `cmd_len` is the return value of the last read, which is no length of a
line, and it leaves `cmd_pos` alone: up to the next prompt, the two need not be a cursor and a
length.
-/

namespace WrpcSw
namespace Shell

open Storage

variable {σ : Type*}

/-- The bytes that a read puts into `cmd_buf`. -/
def Vars.fill (s : Vars) (bs : List UInt8) : Vars :=
  { s with
    cmdBuf := fun i => if 0 ≤ i ∧ i < bs.length then bs.getD i.toNat 0 else s.cmdBuf i
    stores := s.stores ++ [(0, (bs.length : Int))] }

/-- `"executing: %s\n"`. -/
def executing (line : List UInt8) : List UInt8 :=
  [101, 120, 101, 99, 117, 116, 105, 110, 103, 58, 32] ++ line ++ [10]

/-- `"Empty init script...\n"`. -/
def emptyInitScript : List UInt8 :=
  [69, 109, 112, 116, 121, 32, 105, 110, 105, 116, 32, 115, 99, 114, 105, 112, 116, 46, 46, 46, 10]

/-- The loop of `shell_boot_script`, for at most `fuel` reads.  `readcmd` is
`eeprom_init_readcmd`, and `exec` what `_shell_exec` does to the storage and the variables. -/
def bootLoop (readcmd : σ → Nat → Bool → σ × Int × List UInt8) (exec : σ × Vars → σ × Vars) :
    Nat → Bool → σ × Vars → Option (σ × Vars)
  | 0, _, _ => none
  | fuel + 1, next, (t, s) =>
      let r := readcmd t SH_MAX_LINE_LEN next
      let s := { s.fill r.2.2 with cmdLen := r.2.1 }
      if s.cmdLen ≤ 0 then some (r.1, if next then s else s.print emptyInitScript)
      else
        let s := s.store (s.cmdLen - 1) 0
        bootLoop readcmd exec fuel true (exec (r.1, s.print (executing (cString s.cmdBuf))))

def shellBootScript (hasEeprom : Bool) (readcmd : σ → Nat → Bool → σ × Int × List UInt8)
    (exec : σ × Vars → σ × Vars) (fuel : Nat) (p : σ × Vars) : Option (Int × σ × Vars) :=
  if !hasEeprom then some (-1, p)
  else (bootLoop readcmd exec fuel false p).map fun p => (0, p)

section Loop

variable {readcmd : σ → Nat → Bool → σ × Int × List UInt8} {exec : σ × Vars → σ × Vars}

/-- The loop ends when there is no line, and leaves the cursor to the commands of the script. -/
theorem bootLoop_leaves {fuel : Nat} {next : Bool} {p q : σ × Vars}
    (h : bootLoop readcmd exec fuel next p = some q) :
    q.2.cmdLen ≤ 0 ∧
      ((∀ p : σ × Vars, (exec p).2.cmdPos = p.2.cmdPos) → q.2.cmdPos = p.2.cmdPos) := by
  induction fuel generalizing next p with
  | zero => exact absurd h nofun
  | succ fuel ih =>
      rw [bootLoop] at h
      by_cases hend : (readcmd p.1 SH_MAX_LINE_LEN next).2.1 ≤ 0
      · rw [if_pos hend] at h
        obtain rfl := Option.some.inj h
        cases next with
        | true => exact ⟨hend, fun _ => rfl⟩
        | false => exact ⟨hend, fun _ => rfl⟩
      · rw [if_neg hend] at h
        obtain ⟨hlen, hpos⟩ := ih h
        exact ⟨hlen, fun hexec => (hpos hexec).trans (hexec _)⟩

/-- A script that is executed from a line with the cursor behind its start leaves the bounds of
the editor, unless one of its commands moves the cursor. -/
theorem shellBootScript_outOfBounds (hexec : ∀ p : σ × Vars, (exec p).2.cmdPos = p.2.cmdPos)
    {fuel : Nat} {p q : σ × Vars} {ret : Int} (hpos : 0 < p.2.cmdPos)
    (h : shellBootScript true readcmd exec fuel p = some (ret, q)) :
    ¬ InBounds q.2.cmdPos q.2.cmdLen := by
  obtain ⟨q', hloop, heq⟩ := Option.map_eq_some_iff.mp h
  obtain ⟨rfl, rfl⟩ := Prod.mk.inj heq
  obtain ⟨hlen, hcursor⟩ := bootLoop_leaves hloop
  have hstays := hcursor hexec
  rintro ⟨-, hle, -⟩
  omega

end Loop

/-- `init boot`. -/
def initBoot : List UInt8 := [105, 110, 105, 116, 32, 98, 111, 111, 116]

/-- What `_shell_exec` leaves of the line `init boot` where the EEPROM is `t` and its script, if
there is one, only has comments: the space between the words is overwritten, and `cmd_init`
calls `shell_boot_script`.  Other lines stay as they are. -/
def execInitBoot (t : I2c.Eeprom) (fuel : Nat) (s : Vars) : (Int → UInt8) × Int × Int :=
  if cString s.cmdBuf = initBoot then
    match shellBootScript t.hasEeprom I2c.eepromInitReadcmd id fuel (t, s.store 4 0) with
    | some (_, _, s) => (s.cmdBuf, s.cmdPos, s.cmdLen)
    | none => (s.cmdBuf, s.cmdPos, s.cmdLen)
  else (s.cmdBuf, s.cmdPos, s.cmdLen)

/-- The keys of `init boot` and Enter, on a board whose init script is erased: at the next
prompt the cursor is still at 9, and the length is 0. -/
theorem interactive_outOfBounds :
    let s := (interactive (execInitBoot { mem := fun _ => 0 } 1)
      fun n => (initBoot ++ [13])[n]?)^[12] (startVars (fun _ => 0) 0 0)
    s.state = .prompt ∧ s.cmdPos = 9 ∧ s.cmdLen = 0 ∧ ¬ InBounds s.cmdPos s.cmdLen := by
  intro s
  have hpos : s.cmdPos = 9 := by decide
  have hlen : s.cmdLen = 0 := by decide
  refine ⟨by decide, hpos, hlen, ?_⟩
  rintro ⟨-, hle, -⟩
  omega

end Shell
end WrpcSw
