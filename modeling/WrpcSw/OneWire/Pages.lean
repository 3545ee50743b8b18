import WrpcSw.OneWire.Eeprom
import WrpcSw.Lib.Memory

/-!
# The pages of a write (`w1_write_eeprom`)

The chip takes at most a page of 32 bytes at a time.  `w1_write_eeprom` fills the rest of a
first page, then goes on page by page.

The driver is written here once more over an arbitrary function for a page, so that its
calls can be recorded.  `pageCalls` says which they should be: the range, cut where a page
ends.

* `w1WriteEepromBy_eq` — whatever a page does, the driver makes the calls of `pageCalls`
  one after the other until one of them fails.
* `pageCalls_tiles` — these calls are in one page each and follow each other through the
  range, with the bytes of the buffer.
* `w1WriteEeprom_pages` — what a write leaves in the memory, and what it returns.
-/

namespace WrpcSw
namespace OneWire

open CInt Memory

/-! ## Calls -/

/-- The arguments of a call of `w1_write_page`. -/
structure PageCall where
  offset : Int
  buffer : Nat → UInt8
  blen : Int

def PageCall.bytes (p : PageCall) : List UInt8 := sentBytes p.buffer p.blen

/-- The call itself. -/
def PageCall.run (c : Chip) (p : PageCall) : Chip × Int := w1WritePage c p.offset p.buffer p.blen

section By

variable {σ : Type*} (page : σ → PageCall → σ × Int)

/-- `writePages`, over a function for a page. -/
def writePagesBy : Nat → σ → Int → (Nat → UInt8) → Int → Int → σ × Int
  | 0, s, _, _, _, ret => (s, ret)
  | n + 1, s, offset, buffer, blen, ret =>
      if 0 < blen then
        let r := page s ⟨offset, buffer, if blen > 32 then 32 else blen⟩
        if r.2 < 0 then r
        else writePagesBy n r.1 (offset + 32) (fun k => buffer (k + 32)) (blen - 32) (ret + r.2)
      else (s, ret)

/-- `w1WriteEeprom`, over a function for a page. -/
def w1WriteEepromBy (s : σ) (offset : Int) (buffer : Nat → UInt8) (blen : Int) : σ × Int :=
  let firstPage := offset.tdiv 32
  let endpage := (i32 (offset + blen - 1)).tdiv 32
  if offset.tmod 32 ≠ 0 then
    let i := if endpage ≠ firstPage then 32 - offset.tmod 32 else blen
    let r := page s ⟨offset, buffer, i⟩
    if r.2 < 0 then r
    else
      writePagesBy page (blen - i).toNat r.1 (offset + i) (fun k => buffer (k + i.toNat))
        (blen - i) r.2
  else writePagesBy page blen.toNat s offset buffer blen 0

/-- The calls one after the other, until one of them fails. -/
def runCalls : σ → List PageCall → Int → σ × Int
  | s, [], ret => (s, ret)
  | s, p :: ps, ret =>
      let r := page s p
      if r.2 < 0 then r else runCalls r.1 ps (ret + r.2)

end By

/-- The range of `blen` bytes from `offset` on, cut where a page ends. -/
def pageCalls (offset : Int) (buffer : Nat → UInt8) (blen : Int) : List PageCall :=
  if 0 < blen then
    let i := min blen (32 - offset % 32)
    ⟨offset, buffer, i⟩ :: pageCalls (offset + i) (fun k => buffer (k + i.toNat)) (blen - i)
  else []
termination_by blen.toNat
decreasing_by
  have hlt := Int.emod_lt_of_pos offset (by decide : (0 : Int) < 32)
  omega

theorem pageCalls_of_nonpos {offset blen : Int} (buffer : Nat → UInt8) (h : blen ≤ 0) :
    pageCalls offset buffer blen = [] := by
  rw [pageCalls, if_neg (by omega)]

theorem pageCalls_of_pos {offset blen : Int} (buffer : Nat → UInt8) (h : 0 < blen) {i : Int}
    (hi : i = min blen (32 - offset % 32)) :
    pageCalls offset buffer blen =
      ⟨offset, buffer, i⟩ ::
        pageCalls (offset + i) (fun k => buffer (k + i.toNat)) (blen - i) := by
  rw [pageCalls, if_pos h, hi]

/-! ## The calls of the driver -/

section By

variable {σ : Type*} (page : σ → PageCall → σ × Int)

/-- The whole pages and the leading part of the last one. -/
theorem writePagesBy_eq (n : Nat) (s : σ) (offset : Int) (buffer : Nat → UInt8) (blen ret : Int)
    (hn : blen.toNat ≤ n) (haligned : offset % 32 = 0) :
    writePagesBy page n s offset buffer blen ret =
      runCalls page s (pageCalls offset buffer blen) ret := by
  induction n generalizing s offset buffer blen ret with
  | zero =>
      rw [pageCalls_of_nonpos buffer (by omega)]
      rfl
  | succ n ih =>
      by_cases hpos : 0 < blen
      · rw [pageCalls_of_pos buffer hpos (i := if blen > 32 then 32 else blen)
          (by split_ifs <;> omega)]
        simp only [writePagesBy, runCalls, if_pos hpos]
        split_ifs with hlarge hfail hfail
        · rfl
        · exact ih _ _ _ _ _ (by omega) (by omega)
        · rfl
        · -- the loop ends after a page that is not whole
          rw [ih _ _ _ _ _ (by omega) (by omega), pageCalls_of_nonpos _ (by omega),
            pageCalls_of_nonpos _ (by omega)]
      · rw [pageCalls_of_nonpos buffer (by omega)]
        simp only [writePagesBy, if_neg hpos]
        rfl

theorem w1WriteEepromBy_eq (s : σ) {offset blen : Int} (buffer : Nat → UInt8)
    (hoffset : 0 ≤ offset) (hblen : 1 ≤ blen) (htop : offset + blen ≤ 65536) :
    w1WriteEepromBy page s offset buffer blen =
      runCalls page s (pageCalls offset buffer blen) 0 := by
  have hend : i32 (offset + blen - 1) = offset + blen - 1 := i32_eq_self (by unfold InI32; omega)
  unfold w1WriteEepromBy
  rw [hend, Int.tdiv_eq_ediv_of_nonneg hoffset, Int.tmod_eq_emod_of_nonneg hoffset,
    Int.tdiv_eq_ediv_of_nonneg (by omega : 0 ≤ offset + blen - 1)]
  by_cases hpartial : offset % 32 ≠ 0
  · rw [if_pos hpartial, pageCalls_of_pos buffer (by omega : 0 < blen)
      (i := if (offset + blen - 1) / 32 ≠ offset / 32 then 32 - offset % 32 else blen)
      (by split_ifs <;> omega)]
    simp only [runCalls, zero_add]
    split_ifs with hpage hfail hfail
    · rfl
    · exact writePagesBy_eq page _ _ _ _ _ _ le_rfl (by omega)
    · rfl
    · rw [pageCalls_of_nonpos _ (by omega), sub_self]
      rfl
  · rw [if_neg hpartial]
    exact writePagesBy_eq page _ _ _ _ _ _ le_rfl (by omega)

end By

/-- The driver over the chip. -/
theorem w1WriteEeprom_eq_by (c : Chip) (offset : Int) (buffer : Nat → UInt8) (blen : Int) :
    w1WriteEeprom c offset buffer blen = w1WriteEepromBy PageCall.run c offset buffer blen := by
  have hpages : ∀ (n : Nat) (c : Chip) (offset : Int) (buffer : Nat → UInt8) (blen ret : Int),
      writePages n c offset buffer blen ret =
        writePagesBy PageCall.run n c offset buffer blen ret := by
    intro n
    induction n with
    | zero => intros; rfl
    | succ n ih =>
        intro c offset buffer blen ret
        simp only [writePages, writePagesBy, ih]
        rfl
  unfold w1WriteEeprom w1WriteEepromBy
  simp only [hpages]
  rfl

/-! ## What the calls cover -/

/-- The calls go through a range, each within a page, with the bytes of the buffer. -/
inductive Tiles : List PageCall → Int → (Nat → UInt8) → Int → Prop
  | nil (offset : Int) (buffer : Nat → UInt8) : Tiles [] offset buffer 0
  | cons {ps : List PageCall} {offset i blen : Int} {buffer : Nat → UInt8} (hpos : 0 < i)
      (hpage : offset / 32 = (offset + i - 1) / 32)
      (hrest : Tiles ps (offset + i) (fun k => buffer (k + i.toNat)) (blen - i)) :
      Tiles (⟨offset, buffer, i⟩ :: ps) offset buffer blen

theorem pageCalls_tiles (offset : Int) (buffer : Nat → UInt8) {blen : Int} (hblen : 0 ≤ blen) :
    Tiles (pageCalls offset buffer blen) offset buffer blen := by
  fun_induction pageCalls offset buffer blen with
  | case1 offset buffer blen hpos i ih =>
      have hlt := Int.emod_lt_of_pos offset (by decide : (0 : Int) < 32)
      exact Tiles.cons (by omega) (by omega) (ih (by omega))
  | case2 offset buffer blen hpos =>
      obtain rfl : blen = 0 := by omega
      exact Tiles.nil offset buffer

section Tiles

variable {ps : List PageCall} {offset blen : Int} {buffer : Nat → UInt8}

theorem Tiles.inPage (h : Tiles ps offset buffer blen) :
    ∀ p ∈ ps, 0 < p.blen ∧ p.offset / 32 = (p.offset + p.blen - 1) / 32 := by
  induction h with
  | nil => simp
  | cons hpos hpage hrest ih =>
      intro p hp
      rcases List.mem_cons.mp hp with rfl | hp
      · exact ⟨hpos, hpage⟩
      · exact ih p hp

theorem Tiles.inside (h : Tiles ps offset buffer blen) :
    0 ≤ blen ∧ ∀ p ∈ ps, offset ≤ p.offset ∧ p.offset + p.blen ≤ offset + blen := by
  induction h with
  | nil => simp
  | cons hpos hpage hrest ih =>
      obtain ⟨hle, ih⟩ := ih
      refine ⟨by omega, ?_⟩
      intro p hp
      rcases List.mem_cons.mp hp with rfl | hp
      · exact ⟨le_rfl, by simp only; omega⟩
      · obtain ⟨hlo, hhi⟩ := ih p hp
        exact ⟨by omega, by omega⟩

/-- The calls go upwards. -/
theorem Tiles.pairwise (h : Tiles ps offset buffer blen) :
    ps.Pairwise fun p q => p.offset + p.blen ≤ q.offset := by
  induction h with
  | nil => exact List.Pairwise.nil
  | cons hpos hpage hrest ih =>
      refine List.pairwise_cons.mpr ⟨?_, ih⟩
      intro q hq
      exact (hrest.inside.2 q hq).1

/-- Every address of the range is in one of the calls, and no other address is. -/
theorem Tiles.covers (h : Tiles ps offset buffer blen) (addr : Int) :
    (∃ p ∈ ps, p.offset ≤ addr ∧ addr < p.offset + p.blen) ↔
      offset ≤ addr ∧ addr < offset + blen := by
  induction h with
  | nil offset buffer =>
      simp only [List.not_mem_nil, false_and, exists_false, false_iff]
      omega
  | cons hpos hpage hrest ih =>
      have hle := hrest.inside.1
      rw [List.exists_mem_cons_iff, ih]
      simp only
      omega

/-- A call has the bytes of the buffer that belong to its addresses. -/
theorem Tiles.buffer_eq (h : Tiles ps offset buffer blen) :
    ∀ p ∈ ps, ∀ i, p.buffer i = buffer ((p.offset - offset).toNat + i) := by
  induction h with
  | nil => simp
  | cons hpos hpage hrest ih =>
      intro p hp k
      rcases List.mem_cons.mp hp with rfl | hp
      · simp
      · have hinside := (hrest.inside.2 p hp).1
        rw [ih p hp k]
        simp only
        congr 1
        omega

end Tiles

/-! ## One call -/

/-- What the chip answers when the scratchpad is read back: the address, the ending offset and
the bytes. -/
def PageCall.scratchpad (p : PageCall) : List UInt8 :=
  [lsbAddr p.offset, msbAddr p.offset,
    UInt8.ofNat (((p.offset % 65536).toNat + p.bytes.length - 1) % 32)] ++ p.bytes

/-- What the `k`-th call reads back. -/
def Chip.readBack (c : Chip) (k : Nat) (p : PageCall) : List UInt8 :=
  c.line.getD k id p.scratchpad

/-- The return value of a call, by what it reads back. -/
def PageCall.code (p : PageCall) (r : List UInt8) : Int :=
  if r.getD 0 0 ≠ lsbAddr p.offset then -1
  else if r.getD 1 0 ≠ msbAddr p.offset then -2
  else if (r.drop 3).take p.bytes.length ≠ p.bytes then -3
  else p.blen

/-- The ending offset, which the driver sends back unchecked, arrives as it was sent. -/
def Chip.KeepsEs (c : Chip) : Prop := ∀ f ∈ c.line, ∀ r, (f r).getD 2 0 = r.getD 2 0

theorem code_neg_iff {p : PageCall} (hpos : 0 < p.blen) (r : List UInt8) :
    p.code r < 0 ↔ p.code r ≠ p.blen := by
  unfold PageCall.code
  split_ifs <;> omega

theorem storeFrom_eq (mem : Nat → UInt8) {target : Nat} {bytes : List UInt8}
    (htop : target + bytes.length ≤ 65536) :
    storeFrom mem target bytes = writeAt mem target bytes := by
  funext addr
  unfold storeFrom
  by_cases hin : target ≤ addr ∧ addr < target + bytes.length
  · obtain ⟨k, rfl⟩ := Nat.exists_eq_add_of_le hin.1
    have hk : k < bytes.length := by omega
    rw [if_pos (by omega), writeAt_inside mem target bytes hk,
      show (target + k + 65536 - target) % 65536 = k by omega, List.getD_eq_getElem _ _ hk]
  · rw [writeAt_outside mem target bytes (by omega)]
    split_ifs with haddr
    · exact List.getD_eq_default _ _ (by omega)
    · rfl

/-- The copy commits the bytes, with the ending offset that the chip has read out. -/
theorem cSpad_commits (c : Chip) {p : PageCall} (hoffset : 0 ≤ p.offset) (hpos : 0 < p.blen)
    (htop : p.offset + p.blen ≤ 65536) (hes : c.KeepsEs) :
    (((c.wSpad (lsbAddr p.offset) (msbAddr p.offset) p.bytes).rSpad).1.cSpad (lsbAddr p.offset)
      (msbAddr p.offset) ((c.readBack 0 p).getD 2 0)).mem =
        writeAt c.mem p.offset.toNat p.bytes := by
  have hreadEs : (c.readBack 0 p).getD 2 0 = p.scratchpad.getD 2 0 := by
    unfold Chip.readBack
    cases hfs : c.line with
    | nil => rfl
    | cons f fs => exact hes f (by rw [hfs]; exact List.mem_cons_self) _
  have hlength : (p.bytes.length : Int) = p.blen := by
    unfold PageCall.bytes
    rw [length_sentBytes]
    omega
  have hcommit : targetOf (lsbAddr p.offset) (msbAddr p.offset) =
        (((c.wSpad (lsbAddr p.offset) (msbAddr p.offset) p.bytes).rSpad).1).target ∧
      (c.readBack 0 p).getD 2 0 =
        (((c.wSpad (lsbAddr p.offset) (msbAddr p.offset) p.bytes).rSpad).1).es := by
    refine ⟨rfl, ?_⟩
    rw [hreadEs]
    simp only [PageCall.scratchpad, Chip.es, Chip.rSpad, Chip.wSpad, targetOf_eq]
    rfl
  have htarget : (p.offset % 65536).toNat = p.offset.toNat := by omega
  unfold Chip.cSpad
  rw [if_pos hcommit]
  show storeFrom c.mem (targetOf (lsbAddr p.offset) (msbAddr p.offset)) p.bytes = _
  rw [targetOf_eq, htarget]
  exact storeFrom_eq c.mem (by omega)

/-- A call sets its return value by what it reads back, and commits if that is right. -/
theorem run_spec (c : Chip) {p : PageCall} (hoffset : 0 ≤ p.offset) (hpos : 0 < p.blen)
    (htop : p.offset + p.blen ≤ 65536) :
    (p.run c).2 = p.code (c.readBack 0 p) ∧ (p.run c).1.line = c.line.tail ∧
      (p.code (c.readBack 0 p) < 0 → (p.run c).1.mem = c.mem) ∧
      (0 ≤ p.code (c.readBack 0 p) → c.KeepsEs →
        (p.run c).1.mem = writeAt c.mem p.offset.toNat p.bytes) := by
  obtain ⟨hlsb, hmsb⟩ := target_bytes p.offset
  have hread : ((c.wSpad (lsbAddr p.offset) (msbAddr p.offset) p.bytes).rSpad).2 =
      c.readBack 0 p := by
    simp only [Chip.rSpad, Chip.wSpad, Chip.es, targetOf_eq, hlsb, hmsb, Chip.readBack,
      PageCall.scratchpad]
    cases c.line <;> rfl
  have hline : ((c.wSpad (lsbAddr p.offset) (msbAddr p.offset) p.bytes).rSpad).1.line =
      c.line.tail := rfl
  have hmem : ((c.wSpad (lsbAddr p.offset) (msbAddr p.offset) p.bytes).rSpad).1.mem = c.mem := rfl
  have hrun : p.run c = w1WritePage c p.offset p.buffer p.blen := rfl
  unfold w1WritePage at hrun
  simp only [show sentBytes p.buffer p.blen = p.bytes from rfl, hread] at hrun
  rw [hrun]
  unfold PageCall.code
  split_ifs with hfirst hsecond hthird
  · exact ⟨rfl, hline, fun _ => hmem, fun hcode => absurd hcode (by decide)⟩
  · exact ⟨rfl, hline, fun _ => hmem, fun hcode => absurd hcode (by decide)⟩
  · exact ⟨rfl, hline, fun _ => hmem, fun hcode => absurd hcode (by decide)⟩
  · refine ⟨rfl, ?_, fun hcode => absurd hcode (by omega), fun _ hes => ?_⟩
    · unfold Chip.cSpad
      split_ifs <;> exact hline
    · exact cSpad_commits c hoffset hpos htop hes

/-! ## The whole run -/

/-- A call, put on record. -/
def loggedPage (s : Chip × List PageCall) (p : PageCall) : (Chip × List PageCall) × Int :=
  (((p.run s.1).1, s.2 ++ [p]), (p.run s.1).2)

/-- The record does not change the run. -/
theorem runCalls_logged (s : Chip × List PageCall) (ps : List PageCall) (ret : Int) :
    runCalls PageCall.run s.1 ps ret =
      ((runCalls loggedPage s ps ret).1.1, (runCalls loggedPage s ps ret).2) := by
  induction ps generalizing s ret with
  | nil => rfl
  | cons p ps ih =>
      rw [runCalls, runCalls]
      by_cases hfail : (p.run s.1).2 < 0
      · have hlogged : (loggedPage s p).2 < 0 := hfail
        simp only [if_pos hfail, if_pos hlogged]
        rfl
      · have hlogged : ¬ (loggedPage s p).2 < 0 := hfail
        simp only [if_neg hfail, if_neg hlogged]
        exact ih (loggedPage s p).1 _

/-- A call that reads back what it wrote. -/
theorem run_success (c : Chip) {p : PageCall} (hoffset : 0 ≤ p.offset) (hpos : 0 < p.blen)
    (htop : p.offset + p.blen ≤ 65536) (hcode : 0 ≤ p.code (c.readBack 0 p)) :
    ∃ c', p.run c = (c', p.blen) ∧ c'.line = c.line.tail ∧
      (c.KeepsEs → c'.mem = writeAt c.mem p.offset.toNat p.bytes) := by
  obtain ⟨hret, hline, -, hmem⟩ := run_spec c hoffset hpos htop
  have hblen : p.code (c.readBack 0 p) = p.blen := by
    have hiff := code_neg_iff hpos (c.readBack 0 p)
    omega
  exact ⟨(p.run c).1, by rw [← hblen, ← hret], hline, hmem hcode⟩

/-- A call that does not. -/
theorem run_failure (c : Chip) {p : PageCall} (hoffset : 0 ≤ p.offset) (hpos : 0 < p.blen)
    (htop : p.offset + p.blen ≤ 65536) (hcode : p.code (c.readBack 0 p) < 0) :
    ∃ c', p.run c = (c', p.code (c.readBack 0 p)) ∧ c'.mem = c.mem := by
  obtain ⟨hret, -, hmem, -⟩ := run_spec c hoffset hpos htop
  exact ⟨(p.run c).1, by rw [← hret], hmem hcode⟩

/-- A buffer is sent in two parts. -/
theorem sentBytes_add (buffer : Nat → UInt8) {i blen : Int} (hi : 0 ≤ i) (hle : i ≤ blen) :
    sentBytes buffer blen =
      sentBytes buffer i ++ sentBytes (fun k => buffer (k + i.toNat)) (blen - i) := by
  unfold sentBytes
  rw [show blen.toNat = i.toNat + (blen - i).toNat by omega, List.range_add, List.map_append,
    List.map_map]
  congr 1
  apply List.map_congr_left
  intro k _
  simp only [Function.comp_apply]
  congr 1
  omega

/-- What the `k`-th of the coming calls returns. -/
def Chip.callCode (c : Chip) (ps : List PageCall) (k : Nat) (hk : k < ps.length) : Int :=
  ps[k].code (c.readBack k ps[k])

section Run

variable {ps : List PageCall} {offset blen : Int} {buffer : Nat → UInt8}

/-- The calls after the first one. -/
theorem callCode_tail {c c' : Chip} {p : PageCall} {ps : List PageCall}
    (hline : c'.line = c.line.tail) {k : Nat} (hk : k < ps.length) :
    c'.callCode ps k hk = c.callCode (p :: ps) (k + 1) (Nat.succ_lt_succ hk) := by
  have hread : c'.line.getD k id = c.line.getD (k + 1) id := by
    rw [hline]
    cases c.line <;> rfl
  unfold Chip.callCode Chip.readBack
  rw [hread]
  rfl

theorem keepsEs_tail {c c' : Chip} (hline : c'.line = c.line.tail) (h : c.KeepsEs) :
    c'.KeepsEs := by
  intro f hf
  rw [hline] at hf
  exact h f (List.mem_of_mem_tail hf)

/-- All calls succeed. -/
theorem run_verified (h : Tiles ps offset buffer blen) (hoffset : 0 ≤ offset)
    (htop : offset + blen ≤ 65536) (c : Chip) (log : List PageCall) (ret : Int)
    (hcode : ∀ k (hk : k < ps.length), 0 ≤ c.callCode ps k hk) :
    ∃ c', runCalls loggedPage (c, log) ps ret = ((c', log ++ ps), ret + blen) ∧
      (c.KeepsEs → c'.mem = writeAt c.mem offset.toNat (sentBytes buffer blen)) := by
  induction h generalizing c log ret with
  | nil offset buffer =>
      refine ⟨c, by simp [runCalls], fun _ => ?_⟩
      simp [sentBytes]
  | @cons ps offset i blen buffer hpos hpage hrest ih =>
      have hle := hrest.inside.1
      obtain ⟨c₁, hrun, hline, hmem⟩ := run_success c (p := ⟨offset, buffer, i⟩) hoffset hpos
        (by simp only; omega) (hcode 0 (Nat.succ_pos _))
      obtain ⟨c', hruns, hmem'⟩ := ih (by omega) (by omega) c₁ (log ++ [⟨offset, buffer, i⟩])
        (ret + i) (fun k hk => by rw [callCode_tail hline]; exact hcode (k + 1) _)
      refine ⟨c', ?_, fun hes => ?_⟩
      · simp only [runCalls, loggedPage, hrun]
        rw [if_neg (by omega), hruns, List.append_assoc, List.singleton_append,
          show ret + i + (blen - i) = ret + blen by ring]
      · rw [hmem' (keepsEs_tail hline hes), hmem hes, sentBytes_add buffer hpos.le (by omega),
          ← writeAt_append]
        congr 1
        simp only [length_sentBytes]
        omega

/-- The `k`-th call is the first that fails. -/
theorem run_failed (h : Tiles ps offset buffer blen) (hoffset : 0 ≤ offset)
    (htop : offset + blen ≤ 65536) (c : Chip) (log : List PageCall) (ret : Int) {k : Nat}
    (hk : k < ps.length) (hbefore : ∀ j (hj : j < k), 0 ≤ c.callCode ps j (hj.trans hk))
    (hfail : c.callCode ps k hk < 0) :
    ∃ c', runCalls loggedPage (c, log) ps ret =
        ((c', log ++ ps.take (k + 1)), c.callCode ps k hk) ∧
      (c.KeepsEs →
        c'.mem = writeAt c.mem offset.toNat (sentBytes buffer (ps[k].offset - offset))) := by
  induction h generalizing c log ret k with
  | nil offset buffer => exact absurd hk (Nat.not_lt_zero k)
  | @cons ps offset i blen buffer hpos hpage hrest ih =>
      have hle := hrest.inside.1
      cases k with
      | zero =>
          obtain ⟨c', hrun, hmem⟩ := run_failure c (p := ⟨offset, buffer, i⟩) hoffset hpos
            (by simp only; omega) hfail
          refine ⟨c', ?_, fun _ => ?_⟩
          · have hneg : (⟨offset, buffer, i⟩ : PageCall).code
                (c.readBack 0 ⟨offset, buffer, i⟩) < 0 := hfail
            simp only [runCalls, loggedPage, hrun, if_pos hneg]
            rfl
          · rw [hmem]
            simp [sentBytes]
      | succ k =>
          obtain ⟨c₁, hrun, hline, hmem⟩ := run_success c (p := ⟨offset, buffer, i⟩) hoffset hpos
            (by simp only; omega) (hbefore 0 (Nat.succ_pos _))
          have hk' : k < ps.length := Nat.lt_of_succ_lt_succ hk
          obtain ⟨c', hruns, hmem'⟩ := ih (by omega) (by omega) c₁ (log ++ [⟨offset, buffer, i⟩])
            (ret + i) hk'
            (fun j hj => by
              rw [callCode_tail hline]
              exact hbefore (j + 1) (Nat.succ_lt_succ hj))
            (by rw [callCode_tail hline]; exact hfail)
          rw [callCode_tail hline] at hruns
          refine ⟨c', ?_, fun hes => ?_⟩
          · simp only [runCalls, loggedPage, hrun]
            rw [if_neg (by omega), hruns, List.append_assoc, List.singleton_append]
            rfl
          · have hlo := (hrest.inside.2 ps[k] (List.getElem_mem hk')).1
            rw [List.getElem_cons_succ, hmem' (keepsEs_tail hline hes), hmem hes,
              sentBytes_add buffer hpos.le (by omega : i ≤ ps[k].offset - offset),
              ← writeAt_append,
              show ps[k].offset - offset - i = ps[k].offset - (offset + i) by ring]
            congr 1
            simp only [length_sentBytes]
            omega

end Run

/-! ## The write -/

/-- A read inside the memory. -/
theorem w1ReadEeprom_snd (c : Chip) {offset blen : Int} (hoffset : 0 ≤ offset)
    (htop : offset + blen ≤ 65536) :
    (w1ReadEeprom c offset blen).2 = (blen, readAt c.mem offset.toNat blen.toNat) := by
  have hbytes : (addrsFrom (targetOf (lsbAddr offset) (msbAddr offset)) blen.toNat).map c.mem =
      readAt c.mem offset.toNat blen.toNat := by
    rw [targetOf_eq]
    unfold addrsFrom readAt
    rw [List.map_map]
    apply List.map_congr_left
    intro i hi
    have hlt := List.mem_range.mp hi
    simp only [Function.comp_apply]
    congr 1
    omega
  exact congrArg (Prod.mk blen) hbytes

/-- The calls of a write that `w1_write_eeprom` makes, and what becomes of them. -/
theorem w1WriteEeprom_pages (c : Chip) {offset blen : Int} (buffer : Nat → UInt8)
    (hoffset : 0 ≤ offset) (hblen : 1 ≤ blen) (htop : offset + blen ≤ 65536) :
    let calls := pageCalls offset buffer blen
    let made := (w1WriteEepromBy loggedPage (c, []) offset buffer blen).1.2
    let r := w1WriteEeprom c offset buffer blen
    -- the recorded run is the run
    r = ((w1WriteEepromBy loggedPage (c, []) offset buffer blen).1.1,
        (w1WriteEepromBy loggedPage (c, []) offset buffer blen).2) ∧
    -- pages, in order, covering the range with the bytes of the buffer
    (∀ p ∈ calls, 0 < p.blen ∧ p.offset / 32 = (p.offset + p.blen - 1) / 32) ∧
    calls.Pairwise (fun p q => p.offset + p.blen ≤ q.offset) ∧
    (∀ addr, (∃ p ∈ calls, p.offset ≤ addr ∧ addr < p.offset + p.blen) ↔
      offset ≤ addr ∧ addr < offset + blen) ∧
    (∀ p ∈ calls, ∀ i, p.buffer i = buffer ((p.offset - offset).toNat + i)) ∧
    -- all of them verify
    ((∀ k (hk : k < calls.length), 0 ≤ c.callCode calls k hk) →
      made = calls ∧ r.2 = blen ∧
      (c.KeepsEs →
        (w1ReadEeprom r.1 offset blen).2 = (blen, sentBytes buffer blen) ∧
        ∀ addr : Nat, (addr < offset ∨ offset + blen ≤ addr) → r.1.mem addr = c.mem addr)) ∧
    -- the `k`-th is the first that does not
    ∀ k (hk : k < calls.length), (∀ j (hj : j < k), 0 ≤ c.callCode calls j (hj.trans hk)) →
      c.callCode calls k hk < 0 →
      made = calls.take (k + 1) ∧ r.2 = c.callCode calls k hk ∧
      (c.KeepsEs →
        r.1.mem = writeAt c.mem offset.toNat (sentBytes buffer (calls[k].offset - offset))) := by
  intro calls made r
  have htiles : Tiles calls offset buffer blen := pageCalls_tiles offset buffer (by omega)
  have hrun : w1WriteEepromBy loggedPage (c, []) offset buffer blen =
      runCalls loggedPage (c, []) calls 0 :=
    w1WriteEepromBy_eq loggedPage (c, []) buffer hoffset hblen htop
  have hr : r = ((runCalls loggedPage (c, []) calls 0).1.1,
      (runCalls loggedPage (c, []) calls 0).2) := by
    rw [← runCalls_logged (c, []) calls 0]
    exact (w1WriteEeprom_eq_by c offset buffer blen).trans
      (w1WriteEepromBy_eq PageCall.run c buffer hoffset hblen htop)
  refine ⟨by rw [hrun]; exact hr, htiles.inPage, htiles.pairwise, htiles.covers,
    htiles.buffer_eq, ?_, ?_⟩
  · intro hcode
    obtain ⟨c', hruns, hmem⟩ := run_verified htiles hoffset htop c [] 0 hcode
    rw [hruns] at hr
    have hmade : made = calls := by
      show (w1WriteEepromBy loggedPage (c, []) offset buffer blen).1.2 = calls
      rw [hrun, hruns]
      rfl
    refine ⟨hmade, by rw [hr]; exact zero_add blen, fun hes => ?_⟩
    rw [hr]
    have hlength : (sentBytes buffer blen).length = blen.toNat := length_sentBytes buffer blen
    constructor
    · rw [w1ReadEeprom_snd c' hoffset htop, hmem hes, ← hlength, readAt_writeAt]
    · intro addr haddr
      show c'.mem addr = c.mem addr
      rw [hmem hes]
      exact writeAt_outside _ _ _ (by omega)
  · intro k hk hbefore hfail
    obtain ⟨c', hruns, hmem⟩ := run_failed htiles hoffset htop c [] 0 hk hbefore hfail
    rw [hruns] at hr
    have hmade : made = calls.take (k + 1) := by
      show (w1WriteEepromBy loggedPage (c, []) offset buffer blen).1.2 = calls.take (k + 1)
      rw [hrun, hruns]
      rfl
    refine ⟨hmade, by rw [hr], fun hes => ?_⟩
    rw [hr]
    exact hmem hes

/-- Four bytes from address 30 on are two calls; the line spoils the address of the second one. -/
theorem w1WriteEeprom_pages_example :
    let c : Chip := { mem := fun _ => 0xff, line := [id, fun r => r.set 0 0] }
    (w1WriteEeprom c 30 UInt8.ofNat 4).2 = -1 ∧
      (w1WriteEeprom c 30 UInt8.ofNat 4).1.mem = writeAt c.mem 30 [0, 1] := by
  intro c
  obtain ⟨-, -, -, -, -, -, hfailed⟩ := @w1WriteEeprom_pages c 30 4 UInt8.ofNat
    (by decide) (by decide) (by decide)
  have hcalls : pageCalls 30 UInt8.ofNat 4 =
      [⟨30, UInt8.ofNat, 2⟩, ⟨32, fun k => UInt8.ofNat (k + 2), 2⟩] := by
    rw [pageCalls_of_pos _ (by decide) (i := 2) (by decide), pageCalls_of_pos _ (by decide)
      (i := 2) (by decide), pageCalls_of_nonpos _ (by decide)]
    rfl
  simp only [hcalls] at hfailed
  have hfirst : c.callCode [⟨30, UInt8.ofNat, 2⟩, ⟨32, fun k => UInt8.ofNat (k + 2), 2⟩] 0
      (by simp) = 2 := rfl
  have hsecond : c.callCode [⟨30, UInt8.ofNat, 2⟩, ⟨32, fun k => UInt8.ofNat (k + 2), 2⟩] 1
      (by simp) = -1 := rfl
  have hes : c.KeepsEs := by
    intro f hf r
    simp only [c, List.mem_cons, List.not_mem_nil, or_false] at hf
    rcases hf with rfl | rfl
    · rfl
    · simp [List.getD_eq_getElem?_getD]
  obtain ⟨-, hret, hmem⟩ := hfailed 1 (by simp)
    (fun j hj => by
      obtain rfl : j = 0 := by omega
      rw [hfirst]
      decide)
    (by rw [hsecond]; decide)
  exact ⟨hret.trans hsecond, hmem hes⟩

end OneWire
end WrpcSw
