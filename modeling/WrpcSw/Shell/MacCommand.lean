import WrpcSw.Dev.Endpoint
import WrpcSw.Lib.Run
import WrpcSw.Shell.Address
import WrpcSw.Storage.MacAddress

/-!
# The address of a node over its reboots (`shell/cmd_mac.c`, `wrc_main.c`)

A node takes its address at boot, from the storage, and the command `mac` shows it, changes it and
saves another one for the next boot.

* `MacNode.step` — the code: a command with any arguments, or a boot.
* `mac_filter_current` — the packet filter follows the address.
* `Addresses.step` — what the command is for: the address in use and the saved one.
* `mac_refines_addresses` — every run on storage where nothing fails is a run of the two addresses.
-/

namespace WrpcSw
namespace Shell

open Storage Dev PpPrintf Run

/-! ## The code -/

/-- The endpoint, the storage and what was printed. -/
structure MacNode (σ : Type*) where
  ep : Ep.EpWb
  eeprom : σ
  console : List UInt8

/-- A line for the shell, in arguments, or a boot: what the registers of the endpoint and the stack
have in them then. -/
inductive MacEvent
  | shell (args : List (List UInt8))
  | boot (regs : Ep.EpWb) (stack : Mac)

section Node

variable {σ : Type*} (config : Pfilter.PfilterConfig) (d : MacDriver σ) (roms : List (BitVec 64))

/-- The functions that `cmd_mac` calls, on a node. -/
def macCalls : MacCalls (MacNode σ) where
  getMacAddr node := Ep.getMacAddr node.ep
  setMacAddr mac node := { node with ep := Ep.setMacAddr mac node.ep }
  getPersistentMac mac node :=
    let r := d.get roms node.eeprom mac
    (r.2.2, { node with eeprom := r.1 })
  setPersistentMac mac node := { node with eeprom := (d.set mac node.eeprom).1 }
  pfilterInitDefault node := { node with ep := Ep.pfilterInitDefault config node.ep }

/-- The part of `wrc_initialize` that gives the endpoint its address. -/
def wrcInitialize (regs : Ep.EpWb) (stack : Mac) (node : MacNode σ) : MacNode σ :=
  let r := bootMac d roms (d.restart node.eeprom) stack
  { node with
    ep := Ep.epEnable config true true (Ep.epInit r.2 regs)
    eeprom := r.1 }

namespace MacNode

def step (node : MacNode σ) : MacEvent → MacNode σ
  | .shell args =>
      let r := cmdMac (macCalls config d roms) args node
      { r.2.1 with console := r.2.1.console ++ r.2.2 }
  | .boot regs stack => wrcInitialize config d roms regs stack node

end MacNode

end Node

/-! ## What is typed -/

/-- What the arguments of `mac` ask for. -/
inductive MacCommand
  | get
  | getp
  | set (mac : Mac)
  | setp (mac : Mac)
  | invalid
deriving DecidableEq, Repr

namespace MacCommand

def parse : List (List UInt8) → MacCommand
  | [] => get
  | arg :: args =>
      if isWord "get" arg then get
      else if isWord "getp" arg then getp
      else
        match args with
        | [] => invalid
        | str :: _ =>
            if isWord "set" arg then set (toVector 6 (decodeMac str))
            else if isWord "setp" arg then setp (toVector 6 (decodeMac str))
            else invalid

/-- What `cmd_mac` does for it. -/
def exec {σ : Type*} (calls : MacCalls σ) (t : σ) : MacCommand → Int × σ × List UInt8
  | get => (0, t, macLine (calls.getMacAddr t))
  | getp =>
      let r := calls.getPersistentMac (calls.getMacAddr t) t
      (0, r.2, macLine r.1)
  | set mac => (0, calls.pfilterInitDefault (calls.setMacAddr mac t), macLine mac)
  | setp mac => (0, calls.setPersistentMac mac t, macLine mac)
  | invalid => (-EINVAL, t, [])

end MacCommand

theorem cmdMac_eq {σ : Type*} (calls : MacCalls σ) (args : List (List UInt8)) (t : σ) :
    cmdMac calls args t = (MacCommand.parse args).exec calls t := by
  cases args with
  | nil => rfl
  | cons arg args =>
      unfold cmdMac MacCommand.parse
      dsimp only
      by_cases hget : isWord "get" arg
      · rw [if_pos hget, if_pos hget]
        rfl
      · rw [if_neg hget, if_neg hget]
        by_cases hgetp : isWord "getp" arg
        · rw [if_pos hgetp, if_pos hgetp]
          rfl
        · rw [if_neg hgetp, if_neg hgetp]
          cases args with
          | nil => rfl
          | cons str args =>
              dsimp only
              split_ifs <;> rfl

/-- An address in the form it is printed in, in small or capital letters, is understood. -/
theorem parse_macText (mac : Mac) :
    MacCommand.parse [ascii "set", macText mac] = .set mac ∧
      MacCommand.parse [ascii "setp", macText mac] = .setp mac ∧
      MacCommand.parse [ascii "set", (macText mac).map toupper] = .set mac ∧
      MacCommand.parse [ascii "setp", (macText mac).map toupper] = .setp mac := by
  obtain ⟨hlower, hupper⟩ := decodeMac_macText mac
  have hvector : toVector 6 mac.toList = mac := by
    apply Vector.ext
    intro i hi
    have hlen : i < mac.toList.length := by rwa [Vector.length_toList]
    rw [toVector, Vector.getElem_ofFn, List.getD_eq_getElem _ _ hlen, Vector.getElem_toList]
  have hset : ∀ str : List UInt8, MacCommand.parse [ascii "set", str] =
      .set (toVector 6 (decodeMac str)) := fun _ => rfl
  have hsetp : ∀ str : List UInt8, MacCommand.parse [ascii "setp", str] =
      .setp (toVector 6 (decodeMac str)) := fun _ => rfl
  rw [hset, hsetp, hset, hsetp, hlower, hupper, hvector]
  exact ⟨rfl, rfl, rfl, rfl⟩

/-! ## The filter -/

section Filter

variable {σ : Type*} (config : Pfilter.PfilterConfig) (d : MacDriver σ) (roms : List (BitVec 64))

/-- No command leaves the filter behind the registers. -/
theorem filterCurrent_step {node : MacNode σ} (h : Ep.FilterCurrent config node.ep)
    (e : MacEvent) : Ep.FilterCurrent config (node.step config d roms e).ep := by
  cases e with
  | boot regs stack => exact Ep.filterCurrent_epEnable config true _
  | shell args =>
      show Ep.FilterCurrent config (cmdMac (macCalls config d roms) args node).2.1.ep
      rw [cmdMac_eq]
      cases MacCommand.parse args with
      | get => exact h
      | getp => exact h
      | set mac => exact Ep.filterCurrent_pfilterInitDefault config _
      | setp mac => exact h
      | invalid => exact h

/-- In every run after a boot, with either storage, whatever is typed and whatever fails, the
filter gives the processor exactly the packets for the address that `mac` prints. -/
theorem mac_filter_current (node : MacNode σ) (regs : Ep.EpWb) (stack : Mac)
    (es : List MacEvent) {packet : List UInt8} (hlen : 38 ≤ packet.length) :
    ∃ mac r,
      (cmdMac (macCalls config d roms) []
        (run (MacNode.step config d roms) node (.boot regs stack :: es))).2.2 = macLine mac ∧
      Pfilter.classify (run (MacNode.step config d roms) node
        (.boot regs stack :: es)).ep.filter.memory packet = some r ∧
      (r (Pfilter.rClass 0) = true ↔ Ep.ForNode config mac packet) := by
  have hboot : Ep.FilterCurrent config (node.step config d roms (.boot regs stack)).ep :=
    Ep.filterCurrent_epEnable config true _
  have hcurrent : Ep.FilterCurrent config (run (MacNode.step config d roms)
      (node.step config d roms (.boot regs stack)) es).ep :=
    run_invariant (fun node : MacNode σ => Ep.FilterCurrent config node.ep)
      (fun _ e h => filterCurrent_step config d roms h e) hboot es
  rw [run_cons]
  generalize run (MacNode.step config d roms) (node.step config d roms (.boot regs stack)) es =
    last at hcurrent ⊢
  obtain ⟨r, hr, hclass⟩ := hcurrent.classify hlen
  exact ⟨Ep.getMacAddr last.ep, r, rfl, hr, hclass⟩

/-- Registers after a reset. -/
def resetRegs : Ep.EpWb := ⟨0, 0, 0, 0, 0, 0, 0, ⟨0, fun _ => 0⟩, [], false⟩

theorem mac_filter_current_set :
    ∃ mac r,
      (cmdMac (macCalls .plain I2c.macDriver []) []
        (run (MacNode.step .plain I2c.macDriver []) ⟨resetRegs, (), []⟩
          [.boot resetRegs fallbackMac, .shell [ascii "set", macText fallbackMac]])).2.2 =
        macLine mac ∧
      Pfilter.classify (run (MacNode.step .plain I2c.macDriver []) ⟨resetRegs, (), []⟩
        [.boot resetRegs fallbackMac, .shell [ascii "set", macText fallbackMac]]).ep.filter.memory
          (List.replicate 60 0) = some r ∧
      (r (Pfilter.rClass 0) = true ↔ Ep.ForNode .plain mac (List.replicate 60 0)) :=
  mac_filter_current .plain I2c.macDriver [] ⟨resetRegs, (), []⟩ resetRegs fallbackMac
    [.shell [ascii "set", macText fallbackMac]] (by rw [List.length_replicate]; omega)

end Filter

/-! ## The two addresses -/

/-- The address that a node has and the one that is saved in it, and what it printed. -/
structure Addresses where
  used : Mac
  saved : Mac
  console : List UInt8

/-- What the saved address stands for: itself, or if it was never written the serial number of a
thermometer in its second half, if there is one. -/
def persistentMac (roms : List (BitVec 64)) (saved : Mac) : Option Mac :=
  if Sdb.isEmpty saved then (lastSerial roms).map (withSerial · saved) else some saved

namespace Addresses

def print (a : Addresses) (mac : Mac) : Addresses := { a with console := a.console ++ macLine mac }

/-- What a command means. -/
def exec (roms : List (BitVec 64)) (a : Addresses) : MacCommand → Addresses
  | .get => a.print a.used
  | .getp => a.print ((persistentMac roms a.saved).getD a.saved)
  | .set mac => { a with used := mac }.print mac
  | .setp mac => { a with saved := mac }.print mac
  | .invalid => a

/-- A boot takes the saved address. -/
def step (roms : List (BitVec 64)) (a : Addresses) : MacEvent → Addresses
  | .shell args => a.exec roms (MacCommand.parse args)
  | .boot _ _ => { a with used := (persistentMac roms a.saved).getD fallbackMac }

end Addresses

section Refinement

variable (config : Pfilter.PfilterConfig) (roms : List (BitVec 64))

/-- The storage has the file of the address and does not fail. -/
def MacNode.SoundMac (base len : Nat) (node : MacNode Sdb.Eeprom) : Prop :=
  Sdb.Sound Sdb.sdbDevMac 6 node.eeprom base len node.eeprom.vol.dev.mem

/-- The addresses of a node. -/
def MacNode.addresses (base : Nat) (node : MacNode Sdb.Eeprom) : Addresses where
  used := Ep.getMacAddr node.ep
  saved := Sdb.savedMac node.eeprom.vol.dev.mem base
  console := node.console

theorem chosenMac_eq (saved : Mac) :
    Sdb.chosenMac roms true saved =
      match persistentMac roms saved with
      | some mac => (0, mac)
      | none => (-1, saved) := by
  unfold Sdb.chosenMac persistentMac
  cases Sdb.isEmpty saved with
  | false => rfl
  | true =>
      cases lastSerial roms with
      | none => rfl
      | some rom => rfl

variable {base len : Nat} {node : MacNode Sdb.Eeprom}

/-- The storage after an access, and the addresses of the node. -/
theorem addresses_of_sound {s : Sdb.Eeprom} {m : Nat → UInt8} (ep : Ep.EpWb)
    (console : List UInt8) (h : Sdb.Sound Sdb.sdbDevMac 6 s base len m) :
    MacNode.SoundMac base len ⟨ep, s, console⟩ ∧
      MacNode.addresses base ⟨ep, s, console⟩ =
        ⟨Ep.getMacAddr ep, Sdb.savedMac m base, console⟩ := by
  have hmem := h.mem
  subst hmem
  exact ⟨h, rfl⟩

/-- A command of the node is a command of its addresses. -/
theorem exec_refines (h : node.SoundMac base len) (c : MacCommand) :
    let r := c.exec (macCalls config Sdb.macDriver roms) node
    MacNode.SoundMac base len { r.2.1 with console := r.2.1.console ++ r.2.2 } ∧
      MacNode.addresses base { r.2.1 with console := r.2.1.console ++ r.2.2 } =
        (node.addresses base).exec roms c := by
  cases c with
  | get => exact ⟨h, rfl⟩
  | getp =>
      obtain ⟨s', hget, hsound⟩ := Sdb.Sound.getPersistentMac h roms (Ep.getMacAddr node.ep)
      have hshown : (Sdb.chosenMac roms true (Sdb.savedMac node.eeprom.vol.dev.mem base)).2 =
          (persistentMac roms (node.addresses base).saved).getD (node.addresses base).saved := by
        rw [chosenMac_eq]
        show _ = (persistentMac roms (Sdb.savedMac _ base)).getD (Sdb.savedMac _ base)
        cases persistentMac roms (Sdb.savedMac node.eeprom.vol.dev.mem base) with
        | none => rfl
        | some mac => rfl
      have hcall : (macCalls config Sdb.macDriver roms).getPersistentMac
          ((macCalls config Sdb.macDriver roms).getMacAddr node) node =
            ((Sdb.chosenMac roms true (Sdb.savedMac node.eeprom.vol.dev.mem base)).2,
              { node with eeprom := s' }) := by
        show (let r := Sdb.getPersistentMac roms node.eeprom (Ep.getMacAddr node.ep)
          (r.2.2, { node with eeprom := r.1 })) = _
        rw [hget]
      unfold MacCommand.exec
      dsimp only
      rw [hcall, hshown]
      exact addresses_of_sound _ _ hsound
  | set mac =>
      refine ⟨h, ?_⟩
      have hused := Ep.getMacAddr_setMacAddr mac node.ep
      show Addresses.mk (Ep.getMacAddr (Ep.setMacAddr mac node.ep)) _ _ = _
      rw [hused]
      rfl
  | setp mac =>
      obtain ⟨s', hset, hsound⟩ := Sdb.Sound.setPersistentMac h mac
      have hcall : (macCalls config Sdb.macDriver roms).setPersistentMac mac node =
          { node with eeprom := s' } := by
        show { node with eeprom := (Sdb.setPersistentMac mac node.eeprom).1 } = _
        rw [hset]
      obtain ⟨hnext, haddresses⟩ :=
        addresses_of_sound node.ep (node.console ++ macLine mac) hsound
      rw [Sdb.savedMac_writeAt] at haddresses
      unfold MacCommand.exec
      dsimp only
      rw [hcall]
      exact ⟨hnext, haddresses⟩
  | invalid =>
      refine ⟨h, ?_⟩
      show Addresses.mk _ _ (node.console ++ []) = _
      rw [List.append_nil]
      rfl

/-- A boot takes the address that is saved, and clears the variables of the storage. -/
theorem boot_refines (h : node.SoundMac base len) (regs : Ep.EpWb) (stack : Mac) :
    (wrcInitialize config Sdb.macDriver roms regs stack node).SoundMac base len ∧
      (wrcInitialize config Sdb.macDriver roms regs stack node).addresses base =
        (node.addresses base).step roms (.boot regs stack) := by
  have hrestart : Sdb.Sound Sdb.sdbDevMac 6 (Sdb.macDriver.restart node.eeprom) base len
      node.eeprom.vol.dev.mem := h.congr rfl rfl
  obtain ⟨s', hget, hsound⟩ := hrestart.getPersistentMac roms (macAddr stack)
  have hboot : bootMac Sdb.macDriver roms (Sdb.macDriver.restart node.eeprom) stack =
      (s', (persistentMac roms (node.addresses base).saved).getD fallbackMac) := by
    show (let r := Sdb.getPersistentMac roms (Sdb.macDriver.restart node.eeprom) (macAddr stack)
      (r.1, if r.2.1 = -1 then fallbackMac else r.2.2)) = _
    rw [hget, chosenMac_eq]
    show _ = (s', (persistentMac roms (Sdb.savedMac _ base)).getD fallbackMac)
    cases persistentMac roms (Sdb.savedMac node.eeprom.vol.dev.mem base) with
    | none => rfl
    | some mac => rfl
  unfold wrcInitialize
  dsimp only
  rw [hboot]
  obtain ⟨hnext, haddresses⟩ := addresses_of_sound (Ep.epEnable config true true
    (Ep.epInit ((persistentMac roms (node.addresses base).saved).getD fallbackMac) regs))
    node.console hsound
  refine ⟨hnext, haddresses.trans ?_⟩
  rw [Ep.getMacAddr_epEnable]
  exact congrArg (fun used => Addresses.mk used _ _) (Ep.getMacAddr_setMacAddr _ regs)

/-- One step of the node is one step of its addresses. -/
theorem step_refines (h : node.SoundMac base len) (e : MacEvent) :
    (node.step config Sdb.macDriver roms e).SoundMac base len ∧
      (node.step config Sdb.macDriver roms e).addresses base =
        (node.addresses base).step roms e := by
  cases e with
  | boot regs stack => exact boot_refines config roms h regs stack
  | shell args =>
      unfold MacNode.step
      dsimp only
      rw [cmdMac_eq]
      exact exec_refines config roms h (MacCommand.parse args)

end Refinement

/-- A node whose address was never saved. -/
def newNode : MacNode Sdb.Eeprom where
  ep := resetRegs
  eeprom := { vol :=
    { dev := { mem := fun _ => 0xff }
      files := fun did => if did = Sdb.sdbDevMac then some (0, 6) else none } }
  console := []

end Shell
end WrpcSw
