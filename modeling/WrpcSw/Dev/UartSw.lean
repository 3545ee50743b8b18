import WrpcSw.Lib.RingBuffer
import WrpcSw.Lib.Run

/-!
# The console in shared memory (`dev/uart-sw.c`, `tools/wrpc-uart-sw.c`)

The firmware stores each byte in a ring buffer and then counts it; the host copies the
structure word by word and compares the counter with the number of bytes it has
returned.  Both sides run at the same time, so that the steps of a call and of a poll
interleave.

* `Sync` — the invariant of both sides, as long as the host never reads a counter that
  has wrapped further than its own.
* `Sync.step` — every step keeps it.
* `pollWrapped` — what the host does when the counter has wrapped further.
-/

namespace WrpcSw
namespace UartSw

open RingBuffer

/-! ## Data -/

/-- `CONFIG_UART_SW_WSIZE`. -/
def wsize : Nat := 256

/-- What the output path uses of `struct wrc_uart_sw`. -/
structure WrcUartSw where
  nwritten : UInt16
  wbuffer : Vector UInt8 wsize

/-- The size of the structure in words. -/
def words : Nat := 75

/-- `local_uart` after `ptr[i] = ntohl(hwptr[i])`: `nwritten` is in word 1, the buffer begins
with word 3. -/
def copyWord (dev loc : WrcUartSw) (i : Nat) : WrcUartSw where
  nwritten := if i = 1 then dev.nwritten else loc.nwritten
  wbuffer := Vector.ofFn fun k =>
    if i = 3 + k.val / 4 then dev.wbuffer.get k else loc.wbuffer.get k

/-- The end of `usw_ll(dev, -1)`, on the copy: the byte that is returned, or nothing for -1, and
`nreturned`. -/
def uswLl (loc : WrcUartSw) (nreturned : UInt16) : Option UInt8 × UInt16 :=
  -- a counter behind our own is taken for that of reloaded firmware
  let nreturned := if loc.nwritten < nreturned then 0 else nreturned
  if nreturned < loc.nwritten then
    (some (loc.wbuffer.get ⟨nreturned.toNat % wsize, Nat.mod_lt _ (by decide)⟩), nreturned + 1)
  else (none, nreturned)

/-- The bytes that `uart_sw_write_byte(b)` puts into the buffer. -/
def uartSwWriteByte (b : UInt8) : List UInt8 := if b = 10 then [13, 10] else [b]

/-- Both sides.  The last four fields are the history: the bytes the firmware was called with,
the bytes counted, the number of those when the host read the counter, and the bytes that were
returned. -/
structure Console where
  dev : WrcUartSw
  emit : List UInt8
  stored : Bool
  loc : WrcUartSw
  pos : Nat
  nreturned : UInt16
  calls : List UInt8
  written : List UInt8
  sampled : Nat
  returned : List UInt8

/-- The steps: a call begins, its next byte is stored, is counted; the next word is copied, the
poll ends. -/
inductive Event
  | call (b : UInt8)
  | store
  | count
  | copy
  | finish
deriving DecidableEq, Repr

/-- A step that is not the next one of its side does nothing. -/
def step (s : Console) : Event → Console
  | .call b =>
      if s.emit = [] then { s with emit := uartSwWriteByte b, calls := s.calls ++ [b] } else s
  | .store =>
      match s.emit, s.stored with
      | b :: _, false =>
          { s with
            dev := { s.dev with
              wbuffer := s.dev.wbuffer.setIfInBounds (s.dev.nwritten.toNat % wsize) b }
            stored := true }
      | _, _ => s
  | .count =>
      match s.emit, s.stored with
      | b :: emit, true =>
          { s with
            dev := { s.dev with nwritten := s.dev.nwritten + 1 }
            emit := emit
            stored := false
            written := s.written ++ [b] }
      | _, _ => s
  | .copy =>
      if s.pos < words then
        { s with
          loc := copyWord s.dev s.loc s.pos
          pos := s.pos + 1
          sampled := if s.pos = 1 then s.written.length else s.sampled }
      else s
  | .finish =>
      if s.pos = words then
        { s with
          pos := 0
          nreturned := (uswLl s.loc s.nreturned).2
          returned := s.returned ++ (uswLl s.loc s.nreturned).1.toList }
      else s

/-- After `uart_init_sw` and the opening of the device; the buffer may hold anything. -/
structure Initial (s : Console) : Prop where
  nwritten : s.dev.nwritten = 0
  emit : s.emit = []
  stored : s.stored = false
  pos : s.pos = 0
  nreturned : s.nreturned = 0
  calls : s.calls = []
  written : s.written = []
  returned : s.returned = []

/-! ## The invariant -/

/-- The bytes in the ring buffer that were not returned, with the one that is not yet counted. -/
def Console.outstanding (s : Console) : List UInt8 :=
  s.written.drop s.returned.length ++ if s.stored then s.emit.take 1 else []

structure Sync (s : Console) : Prop where
  calls : s.written ++ s.emit = s.calls.flatMap uartSwWriteByte
  stored : s.stored = true → s.emit ≠ []
  room : s.written.length ≤ s.returned.length + 255
  nwritten : s.dev.nwritten.toNat = s.written.length % 65536
  nreturned : s.nreturned.toNat = s.returned.length % 65536
  returned : s.returned = s.written.take s.returned.length
  buffer : Holds s.dev.wbuffer (s.returned.length % wsize) s.outstanding
  sample : 2 ≤ s.pos → s.loc.nwritten.toNat = s.sampled % 65536 ∧
    s.returned.length ≤ s.sampled ∧ s.sampled ≤ s.written.length ∧
    s.sampled / 65536 = s.returned.length / 65536
  copied : 3 + s.returned.length % wsize / 4 < s.pos → s.returned.length < s.sampled →
    s.loc.wbuffer[s.returned.length % wsize]? = s.written[s.returned.length]?

section Lemmas

variable {s : Console}

theorem Initial.sync (h : Initial s) : Sync s where
  calls := by rw [h.written, h.emit, h.calls]; rfl
  stored := fun hstored => absurd (h.stored.symm.trans hstored) (by decide)
  room := by rw [h.written]; exact Nat.zero_le _
  nwritten := by rw [h.nwritten, h.written]; rfl
  nreturned := by rw [h.nreturned, h.returned]; rfl
  returned := by rw [h.returned, h.written]; rfl
  buffer := by
    have hnothing : s.outstanding = [] := by simp [Console.outstanding, h.written, h.stored]
    rw [hnothing]
    exact Holds.nil _ _
  sample := fun hpos => by rw [h.pos] at hpos; omega
  copied := fun hpos => by rw [h.pos] at hpos; omega

/-- No more is returned than was written. -/
theorem Sync.le (h : Sync s) : s.returned.length ≤ s.written.length := by
  have hlen := congrArg List.length h.returned
  rw [List.length_take] at hlen
  omega

theorem Sync.call (h : Sync s) (b : UInt8) : Sync (step s (.call b)) := by
  by_cases hemit : s.emit = []
  · have hstored : s.stored = false := by
      by_contra hne
      exact h.stored (Bool.not_eq_false _ ▸ hne) hemit
    simp only [step, if_pos hemit]
    have hcalls := h.calls
    rw [hemit, List.append_nil] at hcalls
    refine ⟨?_, ?_, h.room, h.nwritten, h.nreturned, h.returned, ?_, h.sample, h.copied⟩
    · simp [hcalls]
    · simp [hstored]
    · have hbuffer := h.buffer
      simp only [Console.outstanding, hstored] at hbuffer ⊢
      exact hbuffer
  · simp only [step, if_neg hemit]
    exact h

theorem Sync.store (h : Sync s) : Sync (step s .store) := by
  simp only [step]
  split
  · next b emit hemit hstored =>
      have hcount : s.outstanding = s.written.drop s.returned.length := by
        simp [Console.outstanding, hstored]
      have hbuffer := h.buffer
      rw [hcount] at hbuffer
      -- the cell of the new byte is the one after the outstanding ones
      have hcell : s.dev.nwritten.toNat % wsize =
          advance wsize (s.returned.length % wsize) (s.written.drop s.returned.length).length := by
        have hle := h.le
        rw [h.nwritten, List.length_drop]
        unfold advance wsize
        omega
      have hroom : (s.written.drop s.returned.length).length < wsize := by
        have hlimit := h.room
        rw [List.length_drop]
        unfold wsize
        omega
      refine ⟨h.calls, ?_, h.room, h.nwritten, h.nreturned, h.returned, ?_, h.sample, h.copied⟩
      · simp [hemit]
      · have hset := hbuffer.set_append hroom b
        rw [← hcell] at hset
        simpa [Console.outstanding, hemit] using hset
  · exact h

theorem Sync.count (h : Sync s)
    (hroom : (step s .count).written.length ≤ (step s .count).returned.length + 255) :
    Sync (step s .count) := by
  revert hroom
  simp only [step]
  split
  · next b emit hemit hstored =>
      intro hroom
      have hle := h.le
      have hnwritten := h.nwritten
      refine ⟨?_, ?_, hroom, ?_, h.nreturned, ?_, ?_, ?_, ?_⟩
      · have hcalls := h.calls
        rw [hemit] at hcalls
        simpa using hcalls
      · simp
      · rw [List.length_append, List.length_singleton, UInt16.toNat_add, hnwritten]
        show (_ + 1) % 2 ^ 16 = _
        omega
      · rw [List.take_append_of_le_length hle]
        exact h.returned
      · have hbuffer := h.buffer
        simp only [Console.outstanding, hemit, hstored, List.drop_append_of_le_length hle]
          at hbuffer ⊢
        simpa using hbuffer
      · intro hpos
        obtain ⟨hloc, hfrom, hto, hphase⟩ := h.sample hpos
        exact ⟨hloc, hfrom, hto.trans (by simp), hphase⟩
      · intro hpos hsampled
        change 3 + s.returned.length % wsize / 4 < s.pos at hpos
        change s.returned.length < s.sampled at hsampled
        have hto := (h.sample (by omega)).2.2.1
        have hlt : s.returned.length < s.written.length := by omega
        exact (h.copied hpos hsampled).trans (List.getElem?_append_left hlt).symm
  · exact fun _ => h

/-- The bytes of a copied word are those of the device. -/
theorem copyWord_wbuffer (dev loc : WrcUartSw) {i k : Nat} (hk : k < wsize) :
    (copyWord dev loc i).wbuffer[k]? =
      if i = 3 + k / 4 then dev.wbuffer[k]? else loc.wbuffer[k]? := by
  simp only [copyWord]
  rw [Vector.getElem?_eq_getElem hk, Vector.getElem_ofFn, Vector.getElem?_eq_getElem hk,
    Vector.getElem?_eq_getElem hk]
  split <;> rfl

/-- The first outstanding byte is where the host looks for it. -/
theorem Sync.first (h : Sync s) (hlt : s.returned.length < s.written.length) :
    s.dev.wbuffer[s.returned.length % wsize]? = s.written[s.returned.length]? := by
  have hbuffer := h.buffer.append.1 0 (by rw [List.length_drop]; omega)
  rwa [advance_zero (Nat.mod_lt _ (by decide)), List.getElem?_drop, Nat.add_zero] at hbuffer

theorem Sync.copy (h : Sync s)
    (hphase : s.pos = 1 → s.written.length / 65536 = s.returned.length / 65536) :
    Sync (step s .copy) := by
  by_cases hpos : s.pos < words
  · simp only [step, if_pos hpos]
    refine ⟨h.calls, h.stored, h.room, h.nwritten, h.nreturned, h.returned, h.buffer, ?_, ?_⟩
    · intro hnext
      change 2 ≤ s.pos + 1 at hnext
      by_cases hone : s.pos = 1
      · simp only [copyWord, if_pos hone]
        exact ⟨h.nwritten, h.le, le_rfl, hphase hone⟩
      · simp only [copyWord, if_neg hone]
        exact h.sample (by omega)
    · intro hnext hsampled
      change 3 + s.returned.length % wsize / 4 < s.pos + 1 at hnext
      have hone : s.pos ≠ 1 := by omega
      simp only [if_neg hone] at hsampled
      show (copyWord s.dev s.loc s.pos).wbuffer[s.returned.length % wsize]? =
        s.written[s.returned.length]?
      rw [copyWord_wbuffer _ _ (Nat.mod_lt _ (by decide))]
      by_cases hword : s.pos = 3 + s.returned.length % wsize / 4
      · have hto := (h.sample (by omega)).2.2.1
        rw [if_pos hword]
        exact h.first (by omega)
      · rw [if_neg hword]
        exact h.copied (by omega) hsampled
  · simp only [step, if_neg hpos]
    exact h

/-- The poll returns the next byte of those that were counted when the counter was read. -/
theorem Sync.uswLl (h : Sync s) (hpos : s.pos = words) :
    (s.returned.length < s.sampled ∧ ∃ b, s.written[s.returned.length]? = some b ∧
        UartSw.uswLl s.loc s.nreturned = (some b, s.nreturned + 1)) ∨
      (s.sampled = s.returned.length ∧ UartSw.uswLl s.loc s.nreturned = (none, s.nreturned)) := by
  have hsmall : s.returned.length % wsize / 4 < 64 := by
    unfold wsize
    omega
  obtain ⟨hloc, hfrom, hto, hphase⟩ := h.sample (by rw [hpos]; decide)
  have hnreturned := h.nreturned
  -- the counters are compared within one turn
  have hnotless : ¬s.loc.nwritten < s.nreturned := by
    rw [UInt16.lt_iff_toNat_lt, hloc, hnreturned]
    omega
  by_cases hlt : s.returned.length < s.sampled
  · have hless : s.nreturned < s.loc.nwritten := by
      rw [UInt16.lt_iff_toNat_lt, hloc, hnreturned]
      omega
    have hcell : s.nreturned.toNat % wsize = s.returned.length % wsize := by
      rw [hnreturned]
      unfold wsize
      omega
    have hcopied := h.copied (by rw [hpos]; unfold words; omega) hlt
    rw [Vector.getElem?_eq_getElem (Nat.mod_lt _ (by decide))] at hcopied
    refine Or.inl ⟨hlt, _, hcopied.symm, ?_⟩
    simp only [UartSw.uswLl, if_neg hnotless, if_pos hless, hcell]
    rfl
  · have heq : s.sampled = s.returned.length := by omega
    have hnotless' : ¬s.nreturned < s.loc.nwritten := by
      rw [UInt16.lt_iff_toNat_lt, hloc, hnreturned, heq]
      omega
    refine Or.inr ⟨heq, ?_⟩
    simp only [UartSw.uswLl, if_neg hnotless, if_neg hnotless']

/-- A new poll does not use the copy of the last one. -/
theorem Sync.restart (h : Sync s) : Sync { s with pos := 0 } where
  calls := h.calls
  stored := h.stored
  room := h.room
  nwritten := h.nwritten
  nreturned := h.nreturned
  returned := h.returned
  buffer := h.buffer
  sample := fun hpos => absurd hpos (by simp)
  copied := fun hpos => absurd hpos (by simp)

/-- Between polls the next byte may be returned. -/
theorem Sync.consume (h : Sync s) (hpos : s.pos = 0) {b : UInt8}
    (hb : s.written[s.returned.length]? = some b) :
    Sync { s with nreturned := s.nreturned + 1, returned := s.returned ++ [b] } := by
  obtain ⟨hlen, hget⟩ := List.getElem?_eq_some_iff.mp hb
  have hlength : (s.returned ++ [b]).length = s.returned.length + 1 := by simp
  have hdrop : s.written.drop s.returned.length = b :: s.written.drop (s.returned.length + 1) := by
    rw [List.drop_eq_getElem_cons hlen, hget]
  refine ⟨h.calls, h.stored, ?_, h.nwritten, ?_, ?_, ?_, ?_, ?_⟩
  · have hroom := h.room
    show s.written.length ≤ (s.returned ++ [b]).length + 255
    omega
  · have hnreturned := h.nreturned
    show (s.nreturned + 1).toNat = (s.returned ++ [b]).length % 65536
    rw [hlength, UInt16.toNat_add]
    show (_ + 1) % 2 ^ 16 = _
    omega
  · show s.returned ++ [b] = s.written.take (s.returned ++ [b]).length
    rw [hlength, List.take_succ_eq_append_getElem hlen, ← h.returned, hget]
  · have hbuffer := h.buffer
    simp only [Console.outstanding] at hbuffer ⊢
    rw [hdrop, List.cons_append, ← List.singleton_append] at hbuffer
    have hrest := hbuffer.append.2
    rw [hlength]
    have hcell : advance wsize (s.returned.length % wsize) [b].length =
        (s.returned.length + 1) % wsize := by
      simp [advance]
    rwa [hcell] at hrest
  · intro hnext
    change 2 ≤ s.pos at hnext
    omega
  · intro hnext
    change 3 + (s.returned ++ [b]).length % wsize / 4 < s.pos at hnext
    omega

theorem Sync.finish (h : Sync s) : Sync (step s .finish) := by
  by_cases hpos : s.pos = words
  · simp only [step, if_pos hpos]
    rcases h.uswLl hpos with ⟨-, b, hb, hresult⟩ | ⟨-, hresult⟩
    · rw [hresult]
      exact h.restart.consume rfl hb
    · rw [hresult]
      show Sync { s with pos := 0, nreturned := s.nreturned, returned := s.returned ++ [] }
      rw [List.append_nil]
      exact h.restart
  · simp only [step, if_neg hpos]
    exact h

end Lemmas

/-! ## Runs -/

/-- At most 255 bytes are written and not returned. -/
def Within (s : Console) (e : Event) : Prop :=
  (step s e).written.length ≤ (step s e).returned.length + 255

/-- When the host reads the counter, it has not wrapped further than the one of the host. -/
def InPhase (s : Console) (e : Event) : Prop :=
  e = .copy → s.pos = 1 → s.written.length / 65536 = s.returned.length / 65536

/-- A poll returns the next byte if one was counted when it read the counter, and -1 if not; the
bytes returned are those written, in their order. -/
structure Exact (s : Console) (e : Event) : Prop where
  result : e = .finish → s.pos = words →
    (uswLl s.loc s.nreturned).1 = (s.written.take s.sampled)[s.returned.length]?
  ordered : (step s e).returned = (step s e).written.take (step s e).returned.length
  expanded : (step s e).written ++ (step s e).emit = (step s e).calls.flatMap uartSwWriteByte

theorem Sync.step {s : Console} (h : Sync s) {e : Event} (hwithin : Within s e)
    (hphase : InPhase s e) : Sync (step s e) := by
  cases e with
  | call b => exact h.call b
  | store => exact h.store
  | count => exact h.count hwithin
  | copy => exact h.copy (hphase rfl)
  | finish => exact h.finish

theorem Sync.exact {s : Console} (h : Sync s) {e : Event} (hwithin : Within s e)
    (hphase : InPhase s e) : Exact s e := by
  have hnext := h.step hwithin hphase
  refine ⟨?_, hnext.returned, hnext.calls⟩
  rintro rfl hpos
  rcases h.uswLl hpos with ⟨hlt, b, hb, hresult⟩ | ⟨heq, hresult⟩
  · rw [hresult, List.getElem?_take_of_lt hlt, hb]
  · rw [hresult, heq]
    exact (List.getElem?_eq_none (by simp)).symm

/-- As long as no poll reads a counter that has wrapped further than its own, the console loses
nothing. -/
theorem console_lossless {s : Console} (hs : Initial s) {es : List Event}
    (h : Run.Along step (fun s e => Within s e ∧ InPhase s e) s es) :
    Run.Along step Exact s es :=
  Run.along_of_along Sync (fun _ _ hsync he => hsync.step he.1 he.2)
    (fun _ _ hsync he => hsync.exact he.1 he.2) hs.sync h

/-! ## The wrap of the counter -/

/-- A counter that has wrapped further makes the host forget what it has returned. -/
theorem uswLl_wrapped {loc : WrcUartSw} {nreturned : UInt16} (h : loc.nwritten < nreturned) :
    uswLl loc nreturned =
      if loc.nwritten = 0 then (none, 0) else (some (loc.wbuffer.get ⟨0, by decide⟩), 1) := by
  simp only [uswLl, if_pos h]
  by_cases hzero : loc.nwritten = 0
  · have hnot : ¬0 < loc.nwritten := by
      rw [hzero]
      decide
    rw [if_pos hzero, if_neg hnot]
  · have hpositive : 0 < loc.nwritten := UInt16.pos_iff_ne_zero.mpr hzero
    rw [if_neg hzero, if_pos hpositive]
    rfl

section Wrap

variable {s : Console}

/-- The events of one byte, and of one poll. -/
def putByte (b : UInt8) : List Event := [.call b, .store, .count]

def poll : List Event := List.replicate words .copy ++ [.finish]

/-- Copying changes nothing but the copy. -/
theorem run_copies (hpos : s.pos = 0) {n : Nat} (hn : n ≤ words) :
    ∃ loc sampled, Run.run step s (List.replicate n .copy) =
        { s with loc := loc, pos := n, sampled := sampled } ∧
      (2 ≤ n → loc.nwritten = s.dev.nwritten ∧ sampled = s.written.length) := by
  induction n with
  | zero =>
      refine ⟨s.loc, s.sampled, ?_, fun h => absurd h (by decide)⟩
      show s = { s with pos := 0 }
      rw [← hpos]
  | succ n ih =>
      obtain ⟨loc, sampled, hrun, hcopied⟩ := ih (Nat.le_of_succ_le hn)
      rw [List.replicate_succ', Run.run_append, hrun]
      refine ⟨_, _, if_pos (Nat.lt_of_succ_le hn), ?_⟩
      intro htwo
      by_cases hone : n = 1
      · simp [copyWord, hone]
      · simpa [copyWord, hone] using hcopied (by omega)

/-- Between polls and calls, with `k` bytes written and returned. -/
structure Idle (k : Nat) (s : Console) : Prop where
  emit : s.emit = []
  pos : s.pos = 0
  written : s.written.length = k
  returned : s.returned.length = k

/-- After one more byte. -/
theorem run_putByte {k : Nat} (h : Idle k s) (hsync : Sync s) {b : UInt8} (hb : b ≠ 10) :
    ∃ wbuffer, Run.run step s (putByte b) =
      { s with
        dev := ⟨s.dev.nwritten + 1, wbuffer⟩
        emit := []
        stored := false
        calls := s.calls ++ [b]
        written := s.written ++ [b] } := by
  have hstored : s.stored = false := by
    by_contra hne
    exact hsync.stored (Bool.not_eq_false _ ▸ hne) h.emit
  refine ⟨s.dev.wbuffer.setIfInBounds (s.dev.nwritten.toNat % wsize) b, ?_⟩
  simp only [putByte, Run.run_cons, Run.run_nil, step, h.emit, if_true, uartSwWriteByte, if_neg hb,
    hstored]

/-- Nothing is written by a step other than a count. -/
theorem within_of_ne_count {s : Console} (h : s.written.length ≤ s.returned.length + 255)
    {e : Event} (he : e ≠ .count) : Within s e := by
  unfold Within
  cases e with
  | call b =>
      simp only [step]
      split <;> exact h
  | store =>
      simp only [step]
      split <;> exact h
  | count => exact absurd rfl he
  | copy =>
      simp only [step]
      split <;> exact h
  | finish =>
      simp only [step]
      split
      · show s.written.length ≤ (s.returned ++ _).length + 255
        rw [List.length_append]
        omega
      · exact h

/-- A poll does not write. -/
theorem along_poll {s : Console} (h : s.written.length ≤ s.returned.length + 255) :
    Run.Along step Within s poll := by
  apply Run.along_of_invariant_on (fun s => s.written.length ≤ s.returned.length + 255)
    (fun e => e ≠ .count) (fun s e hs he => within_of_ne_count hs he)
    (fun s e hs he => within_of_ne_count hs he) h
  intro e he
  rcases List.mem_append.mp he with hmem | hmem
  · rw [List.eq_of_mem_replicate hmem]
    decide
  · rw [List.mem_singleton.mp hmem]
    decide

/-- During a poll both counts stay as they are. -/
theorem along_poll_inPhase {s : Console}
    (h : s.written.length / 65536 = s.returned.length / 65536) :
    Run.Along step InPhase s poll := by
  refine Run.along_append.mpr ⟨?_, fun heq => absurd heq (by decide), trivial⟩
  apply Run.along_of_invariant_on
    (fun s => s.written.length / 65536 = s.returned.length / 65536) (fun e => e = .copy)
    _ (fun _ _ hs _ _ _ => hs) h _ (fun _ he => List.eq_of_mem_replicate he)
  rintro s e hs rfl
  simp only [step]
  split <;> exact hs

/-- Writing a byte between polls. -/
theorem along_putByte {k : Nat} {s : Console} (h : Idle k s) (hsync : Sync s) {b : UInt8}
    (hb : b ≠ 10) :
    Run.Along step (fun s e => Within s e ∧ InPhase s e) s (putByte b) := by
  have hroom : s.written.length ≤ s.returned.length + 255 := by
    rw [h.written, h.returned]
    omega
  obtain ⟨wbuffer, hrun⟩ := run_putByte h hsync hb
  have hcall := within_of_ne_count hroom (e := .call b) (by simp)
  have hstore := within_of_ne_count hcall (e := .store) (by decide)
  refine ⟨⟨hcall, fun heq => absurd heq (by simp)⟩, ⟨hstore, fun heq => absurd heq (by decide)⟩,
    ⟨?_, fun heq => absurd heq (by decide)⟩, trivial⟩
  show (Run.run step s (putByte b)).written.length ≤
    (Run.run step s (putByte b)).returned.length + 255
  rw [hrun]
  simp [h.written, h.returned]

/-- One byte is written and returned, as long as the counter does not wrap. -/
theorem run_block {k : Nat} {s : Console} (h : Idle k s) (hsync : Sync s) (hk : k < 65535)
    {b : UInt8} (hb : b ≠ 10) :
    Run.Along step (fun s e => Within s e ∧ InPhase s e) s (putByte b ++ poll) ∧
      Idle (k + 1) (Run.run step s (putByte b ++ poll)) := by
  obtain ⟨wbuffer, hput⟩ := run_putByte h hsync hb
  have hwritten := h.written
  have hreturned := h.returned
  generalize hs' : Run.run step s (putByte b) = s' at hput
  have hwritten' : s'.written.length = k + 1 := by rw [hput]; simp [hwritten]
  have hreturned' : s'.returned.length = k := by rw [hput]; exact hreturned
  have halong : Run.Along step (fun s e => Within s e ∧ InPhase s e) s (putByte b ++ poll) := by
    refine Run.along_append.mpr ⟨along_putByte h hsync hb, ?_⟩
    rw [hs']
    exact Run.along_and (along_poll (by omega)) (along_poll_inPhase (by omega))
  refine ⟨halong, ?_⟩
  -- the poll up to its last step
  have hcopies := (Run.along_append.mp (Run.along_append.mp halong).2).1
  rw [hs'] at hcopies
  have hsync' : Sync s' := by
    rw [← hs']
    exact Run.run_invariant_of_along Sync (fun _ _ hsync he => hsync.step he.1 he.2) hsync
      (Run.along_append.mp halong).1
  have hsync'' := Run.run_invariant_of_along Sync (fun _ _ hsync he => hsync.step he.1 he.2)
    hsync' hcopies
  obtain ⟨loc, sampled, hrun, hcopied⟩ :=
    run_copies (s := s') (by rw [hput]; exact h.pos) (le_refl words)
  rw [Run.run_append, hs', poll, Run.run_append, hrun, Run.run_cons, Run.run_nil]
  rw [hrun] at hsync''
  obtain ⟨-, hsampled⟩ := hcopied (by decide)
  rcases hsync''.uswLl rfl with ⟨-, c, -, hresult⟩ | ⟨heq, -⟩
  · simp only [step, if_true]
    refine ⟨?_, rfl, hwritten', ?_⟩
    · rw [hput]
    · rw [hresult]
      simp [hreturned']
  · change sampled = s'.returned.length at heq
    omega

/-- Any number of bytes can be written and returned before the counter wraps. -/
theorem exists_run {s : Console} (h : Idle 0 s) (hsync : Sync s) {n : Nat} (hn : n ≤ 65535) :
    ∃ es, Run.Along step (fun s e => Within s e ∧ InPhase s e) s es ∧
      Idle n (Run.run step s es) := by
  induction n with
  | zero => exact ⟨[], trivial, h⟩
  | succ n ih =>
      obtain ⟨es, halong, hidle⟩ := ih (Nat.le_of_succ_le hn)
      have hsync' := Run.run_invariant_of_along Sync
        (fun _ _ hsync he => hsync.step he.1 he.2) hsync halong
      obtain ⟨hblock, hnext⟩ := run_block hidle hsync' (by omega) (b := 65) (by decide)
      refine ⟨es ++ (putByte 65 ++ poll), Run.along_append.mpr ⟨halong, hblock⟩, ?_⟩
      rw [Run.run_append]
      exact hnext

/-- The byte with which the counter wraps is not returned by the poll after it. -/
theorem not_exact_of_wrap {s : Console} (h : Idle 65535 s) (hsync : Sync s) :
    Run.Along step Within s (putByte 65 ++ poll) ∧
      ¬Run.Along step Exact s (putByte 65 ++ poll) := by
  obtain ⟨wbuffer, hput⟩ := run_putByte h hsync (b := 65) (by decide)
  have hwritten := h.written
  have hreturned := h.returned
  generalize hs' : Run.run step s (putByte 65) = s' at hput
  have hwritten' : s'.written.length = 65536 := by rw [hput]; simp [hwritten]
  have hreturned' : s'.returned.length = 65535 := by rw [hput]; exact hreturned
  constructor
  · refine Run.along_append.mpr ⟨?_, ?_⟩
    · exact Run.along_mono (fun _ _ hstep => hstep.1) (along_putByte h hsync (by decide))
    · rw [hs']
      exact along_poll (by omega)
  · intro hexact
    obtain ⟨-, hpoll⟩ := Run.along_append.mp hexact
    obtain ⟨-, hfinish, -⟩ := Run.along_append.mp hpoll
    obtain ⟨loc, sampled, hrun, hcopied⟩ :=
      run_copies (s := s') (by rw [hput]; exact h.pos) (le_refl words)
    obtain ⟨hloc, hsampled⟩ := hcopied (by decide)
    rw [hs', hrun] at hfinish
    have hresult := hfinish.result rfl rfl
    -- the counter has wrapped to zero, the one of the host has not
    have hzero : loc.nwritten = 0 := by
      have hcount := hsync.nwritten
      rw [hloc, hput]
      apply UInt16.toNat_inj.mp
      show (s.dev.nwritten + 1).toNat = 0
      rw [UInt16.toNat_add, hcount, hwritten]
      rfl
    have hbehind : loc.nwritten < s'.nreturned := by
      have hcount : s'.nreturned.toNat = 65535 := by
        rw [hput]
        show s.nreturned.toNat = 65535
        rw [hsync.nreturned, hreturned]
      rw [hzero, UInt16.lt_iff_toNat_lt, hcount]
      decide
    change (uswLl loc s'.nreturned).1 = (s'.written.take sampled)[s'.returned.length]? at hresult
    rw [uswLl_wrapped hbehind, if_pos hzero, List.getElem?_take_of_lt (by omega)] at hresult
    have hnone := List.getElem?_eq_none_iff.mp hresult.symm
    omega

/-- The console at boot. -/
def booted : Console where
  dev := ⟨0, Vector.replicate wsize 0⟩
  emit := []
  stored := false
  loc := ⟨0, Vector.replicate wsize 0⟩
  pos := 0
  nreturned := 0
  calls := []
  written := []
  sampled := 0
  returned := []

theorem booted_initial : Initial booted := ⟨rfl, rfl, rfl, rfl, rfl, rfl, rfl, rfl⟩

theorem booted_idle : Idle 0 booted := ⟨rfl, rfl, rfl, rfl⟩

/-- One byte, written and returned. -/
theorem console_oneByte : Run.Along step Exact booted (putByte 65 ++ poll) :=
  console_lossless booted_initial (run_block booted_idle booted_initial.sync (by decide)
    (by decide)).1

/-- A console that never has more than one byte outstanding loses the byte with which the
counter wraps. -/
theorem console_loses :
    ¬∀ (s : Console) (es : List Event), Initial s → Run.Along step Within s es →
      Run.Along step Exact s es := by
  intro hall
  obtain ⟨es, halong, hidle⟩ := exists_run booted_idle booted_initial.sync (le_refl 65535)
  have hsync := Run.run_invariant_of_along Sync (fun _ _ hsync he => hsync.step he.1 he.2)
    booted_initial.sync halong
  obtain ⟨hwithin, hnot⟩ := not_exact_of_wrap hidle hsync
  apply hnot
  have hexact := hall booted (es ++ (putByte 65 ++ poll)) booted_initial
    (Run.along_append.mpr ⟨Run.along_mono (fun _ _ h => h.1) halong, hwithin⟩)
  exact (Run.along_append.mp hexact).2

end Wrap

end UartSw
end WrpcSw
