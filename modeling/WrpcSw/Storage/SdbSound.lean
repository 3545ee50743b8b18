import WrpcSw.Storage.SdbEeprom

/-!
# Storage whose accesses succeed

The functions of `dev/sdb-eeprom.c` open their file, work on it and close it.  On storage where
nothing fails each of these steps does its work and leaves the storage so.
-/

namespace WrpcSw
namespace Storage
namespace Sdb

open Memory

/-- The file `did` is there, with at least `need` bytes, and no access fails. -/
structure Sound (did need : Nat) (s : Eeprom) (base len : Nat) (m : Nat → UInt8) : Prop where
  file : s.vol.files did = some (base, len)
  room : need ≤ len
  ready : ∀ o ∈ s.vol.dev.outcomes, o = .ok
  mem : s.vol.dev.mem = m

section Sound

variable {s : Eeprom} {did need base len : Nat} {m : Nat → UInt8}

theorem Sound.outcome (h : Sound did need s base len m) : s.vol.dev.outcome = .ok := by
  have hready := h.ready
  unfold Device.outcome
  cases hout : s.vol.dev.outcomes with
  | nil => rfl
  | cons o os => exact hready o (hout ▸ List.mem_cons_self ..)

/-- The static variables, and whether the file is open, make no difference. -/
theorem Sound.congr (h : Sound did need s base len m) {s' : Eeprom}
    (hfiles : s'.vol.files = s.vol.files) (hdev : s'.vol.dev = s.vol.dev) : Sound did need s' base len m :=
  ⟨(congrFun hfiles _).trans h.file, h.room, by rw [hdev]; exact h.ready, by rw [hdev]; exact h.mem⟩

/-- An access that leaves the directory and takes one outcome. -/
theorem Sound.after (h : Sound did need s base len m) {w : Volume} (hfiles : w.files = s.vol.files)
    (houts : w.dev.outcomes = s.vol.dev.outcomes.tail) {m' : Nat → UInt8} (hmem : w.dev.mem = m') :
    Sound did need { s with vol := w } base len m' where
  file := (congrFun hfiles _).trans h.file
  room := h.room
  ready := by
    show ∀ o ∈ w.dev.outcomes, o = .ok
    rw [houts]
    exact fun o ho => h.ready o (List.mem_of_mem_tail ho)
  mem := hmem

theorem Sound.openId (h : Sound did need s base len m) :
    ∃ w : Volume, s.openId did = ({ s with vol := w }, true) ∧ w.Open base len ∧
      Sound did need { s with vol := w } base len m := by
  rcases openId_cases h.file with ⟨w, hopen, hw, hdev, hfiles, -⟩ | ⟨-, hfail⟩
  · refine ⟨w, hopen, hw, h.after hfiles (by rw [hdev]; rfl) ?_⟩
    rw [hdev]
    exact h.mem
  · exact absurd h.outcome hfail

theorem Sound.fread (h : Sound did need s base len m) (hopen : s.vol.Open base len)
    (offset count : Nat) (hin : offset + count ≤ len) :
    ∃ w : Volume, s.fread offset count =
        ({ s with vol := w }, true, readAt m (base + offset) count) ∧ w.Open base len ∧
      Sound did need { s with vol := w } base len m := by
  obtain ⟨w, ok, bytes, hread, hkept, hmem, hok, hbytes⟩ := fread_cases hopen offset count hin
  have hok := hok.mpr h.outcome
  subst hok
  rw [hbytes rfl, h.mem] at hread
  exact ⟨w, hread, hkept.opened, h.after hkept.files hkept.outcomes (hmem.trans h.mem)⟩

theorem Sound.fwrite (h : Sound did need s base len m) (hopen : s.vol.Open base len) (offset : Nat)
    (buf : List UInt8) (hin : offset + buf.length ≤ len) :
    ∃ w : Volume, s.fwrite offset buf = ({ s with vol := w }, true) ∧ w.Open base len ∧
      Sound did need { s with vol := w } base len (writeAt m (base + offset) buf) := by
  obtain ⟨w, ok, stored, hwrite, hkept, hmem, hok, hstored⟩ := fwrite_cases hopen offset buf hin
  have hok := hok.mpr h.outcome
  subst hok
  rw [hstored rfl, List.take_length, h.mem] at hmem
  exact ⟨w, hwrite, hkept.opened, h.after hkept.files hkept.outcomes hmem⟩

end Sound

end Sdb
end Storage
end WrpcSw
