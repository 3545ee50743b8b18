import WrpcSw.Lib.CInt
import WrpcSw.Lib.RingBuffer

/-!
# The packet queue of a socket (`lib/net.c`)

Each socket keeps its received packets in a ring of `NET_SKBUF_SIZE` bytes.  A
packet is a record of four parts without separators: its size, the Ethernet
header, the hardware timestamp and `size` bytes of payload.

* `Sockq`, `wrapCopyIn`, `wrapCopyOut` — the queue and its two copy loops.
* `Sockq.HoldsBytes` — the byte level: what lies between tail and head.
* `Sockq.Holds` — the packet level: the bytes are the records of a list of
  packets, and `n` counts them.
* `copyPacketOut_holds`, `copyPacketIn_spec` — the copies of one writer and of one
  reader, in these terms.
-/

namespace WrpcSw
namespace Net

open CInt RingBuffer

def NET_SKBUF_SIZE : Nat := 512

def ETH_HEADER_SIZE : Nat := 14

/-! ## The parts of a record

The target is a big-endian machine. -/

/-- `mac_addr_t`. -/
abbrev MacAddr := Fin 6 → UInt8

def MacAddr.toBytes (mac : MacAddr) : List UInt8 := List.ofFn mac

def MacAddr.ofBytes (bs : List UInt8) : MacAddr := fun i => bs[i.val]?.getD 0

/-- `struct ethhdr`. -/
structure EthHdr where
  dstmac : MacAddr
  srcmac : MacAddr
  ethtype : UInt16
deriving DecidableEq

def EthHdr.toBytes (hdr : EthHdr) : List UInt8 :=
  MacAddr.toBytes hdr.dstmac ++ (MacAddr.toBytes hdr.srcmac ++ beBytes 2 hdr.ethtype.toNat)

def EthHdr.ofBytes (bs : List UInt8) : EthHdr where
  dstmac := MacAddr.ofBytes (bs.take 6)
  srcmac := MacAddr.ofBytes ((bs.drop 6).take 6)
  ethtype := UInt16.ofNat (beNumber (bs.drop 12))

/-- `struct hw_timestamp`. -/
structure HwTimestamp where
  valid : UInt8
  ahead : Int32
  sec : UInt64
  nsec : UInt32
  phase : UInt32
deriving DecidableEq

/-- Three bytes of padding follow `valid`; no access reads them. -/
def HwTimestamp.toBytes (hwts : HwTimestamp) : List UInt8 :=
  [hwts.valid, 0, 0, 0] ++ (beBytes 4 hwts.ahead.toUInt32.toNat ++
    (beBytes 8 hwts.sec.toNat ++ (beBytes 4 hwts.nsec.toNat ++
      beBytes 4 hwts.phase.toNat)))

def HwTimestamp.ofBytes (bs : List UInt8) : HwTimestamp where
  valid := bs[0]?.getD 0
  ahead := (UInt32.ofNat (beNumber ((bs.drop 4).take 4))).toInt32
  sec := UInt64.ofNat (beNumber ((bs.drop 8).take 8))
  nsec := UInt32.ofNat (beNumber ((bs.drop 16).take 4))
  phase := UInt32.ofNat (beNumber (bs.drop 20))

@[simp] theorem MacAddr.length_toBytes (mac : MacAddr) : (MacAddr.toBytes mac).length = 6 :=
  List.length_ofFn

@[simp] theorem MacAddr.drop_toBytes (mac : MacAddr) {n : Nat} (h : 6 ≤ n) :
    (MacAddr.toBytes mac).drop n = [] :=
  List.drop_eq_nil_of_le (by rwa [MacAddr.length_toBytes])

@[simp] theorem MacAddr.ofBytes_toBytes (mac : MacAddr) :
    MacAddr.ofBytes (MacAddr.toBytes mac) = mac := by
  funext i
  rw [MacAddr.ofBytes, MacAddr.toBytes, List.getElem?_ofFn]
  simp

@[simp] theorem EthHdr.length_toBytes (hdr : EthHdr) : hdr.toBytes.length = 14 := by
  simp [EthHdr.toBytes]

@[simp] theorem EthHdr.ofBytes_toBytes (hdr : EthHdr) : EthHdr.ofBytes hdr.toBytes = hdr := by
  simp [EthHdr.ofBytes, EthHdr.toBytes, List.drop_append]

@[simp] theorem HwTimestamp.length_toBytes (hwts : HwTimestamp) : hwts.toBytes.length = 24 := by
  simp [HwTimestamp.toBytes]

@[simp] theorem HwTimestamp.ofBytes_toBytes (hwts : HwTimestamp) :
    HwTimestamp.ofBytes hwts.toBytes = hwts := by
  simp [HwTimestamp.ofBytes, HwTimestamp.toBytes, List.drop_append]

/-! ## The queue -/

/-- `struct sockq`. -/
structure Sockq where
  buf : Vector UInt8 NET_SKBUF_SIZE
  head : Nat
  tail : Nat
  avail : Nat
  n : Nat
deriving DecidableEq

/-- The loop of `wrap_copy_in`, with the bytes that it stores at `dst`. -/
def wrapCopyIn (q : Sockq) : Nat → List UInt8 × Sockq
  | 0 => ([], q)
  | len + 1 =>
      let byte := q.buf[q.tail]?.getD default
      let tail := q.tail + 1
      let rest := wrapCopyIn { q with tail := if tail = NET_SKBUF_SIZE then 0 else tail } len
      (byte :: rest.1, rest.2)

/-- The loop of `wrap_copy_out` over the bytes at `src`. -/
def wrapCopyOut (q : Sockq) : List UInt8 → Sockq
  | [] => q
  | byte :: src =>
      let buf := q.buf.setIfInBounds q.head byte
      let head := q.head + 1
      wrapCopyOut { q with buf := buf, head := if head = NET_SKBUF_SIZE then 0 else head } src

/-- `q->avail += wrap_copy_in(dst, q, len)`. -/
def availCopyIn (q : Sockq) (len : Nat) : List UInt8 × Sockq :=
  let copied := wrapCopyIn q len
  (copied.1, { copied.2 with avail := u16 (copied.2.avail + len) })

/-- `q->avail -= wrap_copy_out(q, src, len)`. -/
def availCopyOut (q : Sockq) (src : List UInt8) : Sockq :=
  let q := wrapCopyOut q src
  { q with avail := u16 (q.avail + 65536 - src.length) }

/-! ## The bytes between tail and head -/

/-- The bytes between tail and head are `bs`, and `avail` counts the others. -/
structure Sockq.HoldsBytes (q : Sockq) (bs : List UInt8) : Prop where
  tail_lt : q.tail < NET_SKBUF_SIZE
  head_eq : q.head = advance NET_SKBUF_SIZE q.tail bs.length
  stored : RingBuffer.Holds q.buf q.tail bs
  avail_eq : q.avail + bs.length = NET_SKBUF_SIZE

/-- The number of packets does not matter to the bytes. -/
theorem Sockq.HoldsBytes.withCount {q : Sockq} {bs : List UInt8} (h : q.HoldsBytes bs) (n : Nat) :
    ({ q with n := n } : Sockq).HoldsBytes bs :=
  ⟨h.tail_lt, h.head_eq, h.stored, h.avail_eq⟩

theorem wrapCopyIn_eq (q : Sockq) (htail : q.tail < NET_SKBUF_SIZE) (len : Nat) :
    wrapCopyIn q len =
      (fetch q.buf q.tail len, { q with tail := advance NET_SKBUF_SIZE q.tail len }) := by
  induction len generalizing q with
  | zero => rw [advance_zero htail]; rfl
  | succ len ih =>
      have hlt : advance NET_SKBUF_SIZE q.tail 1 < NET_SKBUF_SIZE := advance_lt (by decide) _ _
      have hrest := ih { q with tail := advance NET_SKBUF_SIZE q.tail 1 } hlt
      rw [← next_eq htail] at hrest
      rw [wrapCopyIn, fetch, Nat.add_comm len, ← advance_advance, ← next_eq htail]
      simp only [next] at hrest ⊢
      rw [hrest]

theorem wrapCopyOut_eq (q : Sockq) (hhead : q.head < NET_SKBUF_SIZE) (src : List UInt8) :
    wrapCopyOut q src =
      { q with
        buf := store q.buf q.head src
        head := advance NET_SKBUF_SIZE q.head src.length } := by
  induction src generalizing q with
  | nil => rw [List.length_nil, advance_zero hhead]; rfl
  | cons byte src ih =>
      have hlt : advance NET_SKBUF_SIZE q.head 1 < NET_SKBUF_SIZE := advance_lt (by decide) _ _
      have hrest := ih { q with
        buf := q.buf.setIfInBounds q.head byte
        head := advance NET_SKBUF_SIZE q.head 1 } hlt
      rw [← next_eq hhead] at hrest
      rw [wrapCopyOut, store, List.length_cons, Nat.add_comm src.length, ← advance_advance,
        ← next_eq hhead]
      simp only [next] at hrest ⊢
      rw [hrest]

/-- Copying in takes the first bytes from the queue. -/
theorem Sockq.HoldsBytes.copyIn {q : Sockq} {xs ys : List UInt8}
    (h : q.HoldsBytes (xs ++ ys)) :
    (availCopyIn q xs.length).1 = xs ∧ (availCopyIn q xs.length).2.HoldsBytes ys ∧
      (availCopyIn q xs.length).2.n = q.n := by
  have havail := h.avail_eq
  have hhead := h.head_eq
  rw [List.length_append] at havail hhead
  rw [availCopyIn, wrapCopyIn_eq q h.tail_lt]
  refine ⟨?_, ⟨advance_lt (by decide) _ _, ?_, h.stored.append.2, ?_⟩, rfl⟩
  · have hfetch := h.stored.fetch_eq h.tail_lt (n := xs.length)
      (by rw [List.length_append]; omega)
    rw [hfetch, List.take_left]
  · rw [hhead, advance_advance]
  · have hrange : q.avail + xs.length < 65536 := by unfold NET_SKBUF_SIZE at havail; omega
    change u16 (q.avail + xs.length) + ys.length = NET_SKBUF_SIZE
    rw [u16_eq_self hrange]
    omega

/-- Copying out appends to the queue, when there is room. -/
theorem Sockq.HoldsBytes.copyOut {q : Sockq} {xs : List UInt8} (h : q.HoldsBytes xs)
    (ys : List UInt8) (hroom : ys.length ≤ q.avail) :
    (availCopyOut q ys).HoldsBytes (xs ++ ys) ∧ (availCopyOut q ys).n = q.n := by
  have havail := h.avail_eq
  have hhead_lt : q.head < NET_SKBUF_SIZE := h.head_eq ▸ advance_lt (by decide) _ _
  rw [availCopyOut, wrapCopyOut_eq q hhead_lt]
  refine ⟨⟨h.tail_lt, ?_, ?_, ?_⟩, rfl⟩
  · rw [h.head_eq, advance_advance, List.length_append]
  · rw [h.head_eq]
    exact h.stored.store_append (by omega)
  · unfold NET_SKBUF_SIZE at havail ⊢
    simp only [u16, List.length_append]
    omega

/-! ## Packets -/

/-- A queued packet.  Its payload has the size of the received frame, header
included: behind the payload of the frame come bytes of the receive buffer. -/
structure Packet where
  hdr : EthHdr
  hwts : HwTimestamp
  payload : List UInt8
  size_ge : ETH_HEADER_SIZE ≤ payload.length
  size_le : payload.length ≤ NET_SKBUF_SIZE - 32

/-- The stored size. -/
def Packet.size (p : Packet) : Nat := p.payload.length

def Packet.record (p : Packet) : List UInt8 :=
  beBytes 2 p.size ++ (p.hdr.toBytes ++ (p.hwts.toBytes ++ p.payload))

def records (ps : List Packet) : List UInt8 := ps.flatMap Packet.record

@[simp] theorem Packet.length_record (p : Packet) : p.record.length = 40 + p.size := by
  simp only [Packet.record, Packet.size, List.length_append, length_beBytes,
    EthHdr.length_toBytes, HwTimestamp.length_toBytes]
  omega

theorem Packet.beNumber_size (p : Packet) : beNumber (beBytes 2 p.size) = p.size := by
  have hle : p.size ≤ 480 := p.size_le
  rw [beNumber_beBytes]
  exact Nat.mod_eq_of_lt (by omega)

theorem records_cons (p : Packet) (ps : List Packet) : records (p :: ps) = p.record ++ records ps :=
  List.flatMap_cons

theorem length_le_records (ps : List Packet) : ps.length ≤ (records ps).length := by
  induction ps with
  | nil => exact Nat.zero_le _
  | cons p ps ih =>
      rw [records_cons, List.length_append, Packet.length_record, List.length_cons]
      omega

/-- The queue holds the packets `ps`, in this order. -/
structure Sockq.Holds (q : Sockq) (ps : List Packet) : Prop where
  bytes : q.HoldsBytes (records ps)
  n_eq : q.n = ps.length

/-- An empty queue, as a new socket has it. -/
theorem Sockq.holds_nil {q : Sockq} (hhead : q.head = 0) (htail : q.tail = 0)
    (havail : q.avail = NET_SKBUF_SIZE) (hn : q.n = 0) : q.Holds [] where
  bytes := ⟨by rw [htail]; decide, by rw [hhead, htail]; rfl, RingBuffer.Holds.nil _ _, havail⟩
  n_eq := hn

/-- The three redundant counters of a queue agree. -/
def Sockq.Consistent (q : Sockq) : Prop :=
  q.head < NET_SKBUF_SIZE ∧ q.tail < NET_SKBUF_SIZE ∧
    ((q.head : Int) - q.tail) % NET_SKBUF_SIZE = (NET_SKBUF_SIZE - q.avail) % NET_SKBUF_SIZE

theorem Sockq.Holds.consistent {q : Sockq} {ps : List Packet} (h : q.Holds ps) :
    q.Consistent := by
  have hhead := h.bytes.head_eq
  have havail := h.bytes.avail_eq
  have htail := h.bytes.tail_lt
  unfold Sockq.Consistent
  unfold NET_SKBUF_SIZE advance at *
  omega

/-- The copies of `update_rx_queues`. -/
def copyPacketOut (q : Sockq) (size : Nat) (hdr : EthHdr) (hwts : HwTimestamp)
    (payload : List UInt8) : Sockq :=
  let q := availCopyOut q (beBytes 2 size)
  let q := availCopyOut q hdr.toBytes
  let q := availCopyOut q hwts.toBytes
  let q := availCopyOut q payload
  { q with n := u16 (q.n + 1) }

/-- The copies of `ptpd_netif_recvfrom`: the size, the header, the timestamp and the
bytes that go into a buffer of `dataLength` bytes. -/
def copyPacketIn (q : Sockq) (dataLength : Nat) :
    (Nat × EthHdr × HwTimestamp × List UInt8) × Sockq :=
  let q := { q with n := q.n - 1 }
  let (size, q) := availCopyIn q 2
  let (hdr, q) := availCopyIn q ETH_HEADER_SIZE
  let (hwts, q) := availCopyIn q 24
  let (data, q) := availCopyIn q (min (beNumber size) dataLength)
  ((beNumber size, EthHdr.ofBytes hdr, HwTimestamp.ofBytes hwts, data), q)

/-- Writing a packet for which there is room appends it to the queue. -/
theorem copyPacketOut_holds {q : Sockq} {ps : List Packet} (h : q.Holds ps) (p : Packet)
    (hroom : 40 + p.size ≤ q.avail) :
    (copyPacketOut q p.size p.hdr p.hwts p.payload).Holds (ps ++ [p]) := by
  have hlength := p.length_record
  have hsize : p.payload.length = p.size := rfl
  have havail := h.bytes.avail_eq
  obtain ⟨hbytes₁, hn₁⟩ := h.bytes.copyOut (beBytes 2 p.size) (by simp; omega)
  obtain ⟨hbytes₂, hn₂⟩ := hbytes₁.copyOut p.hdr.toBytes
    (by have := hbytes₁.avail_eq; simp at this ⊢; omega)
  obtain ⟨hbytes₃, hn₃⟩ := hbytes₂.copyOut p.hwts.toBytes
    (by have := hbytes₂.avail_eq; simp at this ⊢; omega)
  obtain ⟨hbytes₄, hn₄⟩ := hbytes₃.copyOut p.payload
    (by have := hbytes₃.avail_eq; simp at this ⊢; omega)
  have hrecords : records (ps ++ [p]) =
      records ps ++ beBytes 2 p.size ++ p.hdr.toBytes ++ p.hwts.toBytes ++ p.payload := by
    simp [records, Packet.record]
  have hcount : ps.length ≤ NET_SKBUF_SIZE := by
    have := length_le_records ps
    omega
  have hn : u16 (q.n + 1) = (ps ++ [p]).length := by
    rw [h.n_eq, List.length_append, List.length_singleton]
    unfold NET_SKBUF_SIZE at hcount
    exact u16_eq_self (by omega)
  simp only [copyPacketOut, hn₄, hn₃, hn₂, hn₁]
  exact ⟨hrecords ▸ hbytes₄.withCount _, hn⟩

/-- Reading takes the first packet from the queue, except for what the caller's
buffer has no room for. -/
theorem copyPacketIn_spec {q : Sockq} {p : Packet} {ps : List Packet} (h : q.Holds (p :: ps))
    (dataLength : Nat) :
    (copyPacketIn q dataLength).1 = (p.size, p.hdr, p.hwts, p.payload.take dataLength) ∧
      (copyPacketIn q dataLength).2.HoldsBytes (p.payload.drop dataLength ++ records ps) ∧
      (copyPacketIn q dataLength).2.n = ps.length := by
  have hbytes : ({ q with n := q.n - 1 } : Sockq).HoldsBytes (beBytes 2 p.size ++
      (p.hdr.toBytes ++ (p.hwts.toBytes ++
        (p.payload.take dataLength ++ (p.payload.drop dataLength ++ records ps))))) := by
    have hrecords : records (p :: ps) = beBytes 2 p.size ++
        (p.hdr.toBytes ++ (p.hwts.toBytes ++
          (p.payload.take dataLength ++ (p.payload.drop dataLength ++ records ps)))) := by
      rw [← List.append_assoc (p.payload.take dataLength), List.take_append_drop]
      simp [records_cons, Packet.record]
    exact (hrecords ▸ h.bytes).withCount _
  have hmin : (p.payload.take dataLength).length = min p.size dataLength := by
    rw [List.length_take, Packet.size, Nat.min_comm]
  obtain ⟨hcopy₁, hbytes₁, hn₁⟩ := hbytes.copyIn
  obtain ⟨hcopy₂, hbytes₂, hn₂⟩ := hbytes₁.copyIn
  obtain ⟨hcopy₃, hbytes₃, hn₃⟩ := hbytes₂.copyIn
  obtain ⟨hcopy₄, hbytes₄, hn₄⟩ := hbytes₃.copyIn
  simp only [length_beBytes, EthHdr.length_toBytes, HwTimestamp.length_toBytes, hmin] at *
  have hq : copyPacketIn q dataLength =
      ((p.size, p.hdr, p.hwts, p.payload.take dataLength),
        (availCopyIn (availCopyIn (availCopyIn (availCopyIn { q with n := q.n - 1 } 2).2 14).2
          24).2 (min p.size dataLength)).2) := by
    simp only [copyPacketIn, ETH_HEADER_SIZE, hcopy₁, hcopy₂, hcopy₃, p.beNumber_size, hcopy₄,
      EthHdr.ofBytes_toBytes, HwTimestamp.ofBytes_toBytes]
  rw [hq]
  refine ⟨rfl, hbytes₄, ?_⟩
  rw [hn₄, hn₃, hn₂, hn₁, h.n_eq, List.length_cons, Nat.add_sub_cancel]

end Net
end WrpcSw
