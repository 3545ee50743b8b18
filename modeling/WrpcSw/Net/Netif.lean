import WrpcSw.Lib.Run
import WrpcSw.Net.Sockq
import WrpcSw.Net.Timestamp

/-!
# Sockets and reception (`lib/net.c`)

`update_rx_queues` takes a frame from the Mini-NIC and appends it to the queue of
the first socket bound to its destination and ethertype; `ptpd_netif_recvfrom`
takes the first packet from the queue of one socket.

* `recvfrom_framed_iff` — a receive call leaves the queue framed exactly when the
  caller's buffer has room for the stored packet.
* `delivers_in_order` — under this condition, every interleaving of the two
  operations is a queue of frames for each socket.
-/

namespace WrpcSw
namespace Net

open CInt RingBuffer Run

abbrev NET_MAX_SOCKETS : Nat := 4

def REF_CLOCK_PERIOD_PS : Int := 8000

/-- `struct my_socket`, as far as the receive path uses it: `mac` and `ethertype`
are those of `bind_addr`. -/
structure MySocket where
  inUse : Bool
  mac : MacAddr
  ethertype : UInt16
  phaseTransition : Int
  queue : Sockq

/-! ## Receiving a packet -/

/-- What `ptpd_netif_recvfrom` stores for its caller, with the return value. -/
structure RecvResult where
  rval : Int
  ethertype : UInt16
  mac : MacAddr
  macDest : MacAddr
  data : List UInt8
  rxTimestamp : Option WrTimestamp

/-- The timestamp of the caller, from the one of the queue and the phase that
`spll_read_ptracker` reports. -/
def rxTimestampOf (hwts : HwTimestamp) (rawPhase phaseTransition : Int) : WrTimestamp :=
  let ts : WrTimestamp :=
    { rawNsec := hwts.nsec.toInt32.toInt
      rawAhead := hwts.ahead.toInt
      rawPhase := rawPhase
      sec := hwts.sec.toInt64.toInt
      nsec := hwts.nsec.toInt32.toInt
      phase := 0
      correct := hwts.valid.toNat }
  ptpdNetifLinearizeRxTimestamp i32 ts ts.rawPhase (decide (hwts.ahead ≠ 0))
    (i32 phaseTransition) REF_CLOCK_PERIOD_PS

theorem rxTimestampOf_rawPhase (hwts : HwTimestamp) (rawPhase phaseTransition : Int) :
    (rxTimestampOf hwts rawPhase phaseTransition).rawPhase = rawPhase :=
  linearize_rawPhase ..

/-- `ptracker` is the reading of the phase tracker when the caller wants a timestamp.
There is no result when the queue is empty. -/
def ptpdNetifRecvfrom (s : MySocket) (dataLength : Nat) (ptracker : Option Int) :
    Option RecvResult × MySocket :=
  if s.queue.n = 0 then (none, s)
  else
    let ((size, hdr, hwts, data), q) := copyPacketIn s.queue dataLength
    -- the size of the header is unsigned, and so is the difference
    let bodySize := (size + 4294967296 - ETH_HEADER_SIZE) % 4294967296
    let result : RecvResult :=
      { rval := i32 ((min bodySize dataLength : Nat) : Int)
        ethertype := hdr.ethtype
        mac := hdr.srcmac
        macDest := hdr.dstmac
        data := data
        rxTimestamp := ptracker.map fun rawPhase =>
          rxTimestampOf hwts rawPhase s.phaseTransition }
    (some result, { s with queue := q })

/-- The result of receiving the packet `p`. -/
def Packet.result (p : Packet) (dataLength : Nat) (ptracker : Option Int)
    (phaseTransition : Int) : RecvResult where
  rval := ((min (p.size - ETH_HEADER_SIZE) dataLength : Nat) : Int)
  ethertype := p.hdr.ethtype
  mac := p.hdr.srcmac
  macDest := p.hdr.dstmac
  data := p.payload.take dataLength
  rxTimestamp := ptracker.map fun rawPhase => rxTimestampOf p.hwts rawPhase phaseTransition

theorem recvfrom_empty {s : MySocket} (h : s.queue.Holds []) (dataLength : Nat)
    (ptracker : Option Int) : ptpdNetifRecvfrom s dataLength ptracker = (none, s) :=
  if_pos h.n_eq

/-- A receive call returns the first packet and takes from the queue what it has
copied. -/
theorem recvfrom_spec {s : MySocket} {p : Packet} {ps : List Packet}
    (h : s.queue.Holds (p :: ps)) (dataLength : Nat) (ptracker : Option Int) :
    (ptpdNetifRecvfrom s dataLength ptracker).1 =
        some (p.result dataLength ptracker s.phaseTransition) ∧
      (ptpdNetifRecvfrom s dataLength ptracker).2 =
        { s with queue := (copyPacketIn s.queue dataLength).2 } := by
  have hn : s.queue.n ≠ 0 := by
    rw [h.n_eq]
    exact Nat.succ_ne_zero _
  have hpair : copyPacketIn s.queue dataLength =
      ((p.size, p.hdr, p.hwts, p.payload.take dataLength), (copyPacketIn s.queue dataLength).2) :=
    Prod.ext (copyPacketIn_spec h dataLength).1 rfl
  have hge : 14 ≤ p.size := p.size_ge
  have hle : p.size ≤ 480 := p.size_le
  have hbody : (p.size + 4294967296 - ETH_HEADER_SIZE) % 4294967296 =
      p.size - ETH_HEADER_SIZE := by
    unfold ETH_HEADER_SIZE
    omega
  have hrange : InI32 ((min (p.size - ETH_HEADER_SIZE) dataLength : Nat) : Int) :=
    ⟨by omega, by omega⟩
  rw [ptpdNetifRecvfrom, if_neg hn]
  generalize (copyPacketIn s.queue dataLength).2 = q at hpair ⊢
  simp only [hpair, hbody, i32_eq_self hrange, Packet.result, and_self]

/-- With room for the packet, a receive call takes exactly the packet. -/
theorem recvfrom_framed {s : MySocket} {p : Packet} {ps : List Packet}
    (h : s.queue.Holds (p :: ps)) {dataLength : Nat} (hfits : p.size ≤ dataLength)
    (ptracker : Option Int) :
    (ptpdNetifRecvfrom s dataLength ptracker).2.queue.Holds ps := by
  obtain ⟨-, hbytes, hn⟩ := copyPacketIn_spec h dataLength
  rw [(recvfrom_spec h dataLength ptracker).2]
  rw [List.drop_eq_nil_of_le hfits, List.nil_append] at hbytes
  exact ⟨hbytes, hn⟩

/-- Without, the rest of its payload stays in front of the next packet. -/
theorem recvfrom_misframed {s : MySocket} {p : Packet} {ps : List Packet}
    (h : s.queue.Holds (p :: ps)) {dataLength : Nat} (hlong : dataLength < p.size)
    (ptracker : Option Int) :
    ¬ (ptpdNetifRecvfrom s dataLength ptracker).2.queue.Holds ps := by
  obtain ⟨-, hbytes, -⟩ := copyPacketIn_spec h dataLength
  rw [(recvfrom_spec h dataLength ptracker).2]
  intro hholds
  have hall := hbytes.avail_eq
  have hrest : (copyPacketIn s.queue dataLength).2.avail + (records ps).length =
      NET_SKBUF_SIZE := hholds.bytes.avail_eq
  have hsize : p.payload.length = p.size := rfl
  rw [List.length_append, List.length_drop] at hall
  omega

/-! ## Distributing the received frames -/

/-- A frame that `minic_rx_frame` hands over, with the bytes behind its header. -/
structure RxFrame where
  hdr : EthHdr
  hwts : HwTimestamp
  body : List UInt8
  fits : ETH_HEADER_SIZE + body.length ≤ NET_SKBUF_SIZE - 32

/-- The return value of `minic_rx_frame`. -/
def RxFrame.recvd (frame : RxFrame) : Nat := ETH_HEADER_SIZE + frame.body.length

/-- The sockets, and the static receive buffer of `update_rx_queues`, which keeps the
bytes of earlier frames. -/
structure NetState where
  socks : Fin NET_MAX_SOCKETS → MySocket
  payload : List UInt8
  payload_length : payload.length = NET_SKBUF_SIZE - 32

/-- `minic_rx_frame` copies the bytes behind the header to the start of the buffer. -/
def NetState.rxFrame (net : NetState) (frame : RxFrame) : NetState where
  socks := net.socks
  payload := frame.body ++ net.payload.drop frame.body.length
  payload_length := by
    have hfits := frame.fits
    rw [List.length_append, List.length_drop, net.payload_length]
    unfold ETH_HEADER_SIZE at hfits
    omega

/-- The test of the loop over the sockets. -/
def MySocket.accepts (s : MySocket) (hdr : EthHdr) : Bool :=
  s.inUse && decide (hdr.dstmac = s.mac) && decide (hdr.ethtype = s.ethertype)

/-- The loop over the sockets. -/
def findSocket (socks : Fin NET_MAX_SOCKETS → MySocket) (hdr : EthHdr) :
    Option (Fin NET_MAX_SOCKETS) :=
  Fin.find? fun i => (socks i).accepts hdr

/-- `frame` is `none` when no frame was received. -/
def updateRxQueues (net : NetState) (frame : Option RxFrame) : NetState :=
  match frame with
  | none => net
  | some frame =>
      let net := net.rxFrame frame
      match findSocket net.socks frame.hdr with
      | none => net
      | some i =>
          let q := (net.socks i).queue
          let qRequired := ETH_HEADER_SIZE + frame.recvd + 24 + 2
          if q.avail < qRequired then net
          else
            let size := u16 frame.recvd
            let q := copyPacketOut q size frame.hdr frame.hwts (net.payload.take size)
            { net with socks := Function.update net.socks i { net.socks i with queue := q } }

/-- The operations on the sockets. -/
inductive NetEvent where
  | updateRxQueues (frame : Option RxFrame)
  | recvfrom (sock : Fin NET_MAX_SOCKETS) (dataLength : Nat) (ptracker : Option Int)

def netStep (net : NetState) : NetEvent → NetState
  | .updateRxQueues frame => updateRxQueues net frame
  | .recvfrom sock dataLength ptracker =>
      let s := (ptpdNetifRecvfrom (net.socks sock) dataLength ptracker).2
      { net with socks := Function.update net.socks sock s }

/-- The packet that is stored for a frame. -/
def RxFrame.packet (frame : RxFrame) (net : NetState) : Packet where
  hdr := frame.hdr
  hwts := frame.hwts
  payload := (net.rxFrame frame).payload.take frame.recvd
  size_ge := by
    have hle : frame.recvd ≤ NET_SKBUF_SIZE - 32 := frame.fits
    rw [List.length_take, (net.rxFrame frame).payload_length]
    exact Nat.le_min.mpr ⟨Nat.le_add_right _ _, by decide⟩
  size_le := by
    rw [List.length_take, (net.rxFrame frame).payload_length]
    exact Nat.min_le_right _ _

theorem RxFrame.size_packet (frame : RxFrame) (net : NetState) :
    (frame.packet net).size = frame.recvd := by
  have hle : frame.recvd ≤ NET_SKBUF_SIZE - 32 := frame.fits
  rw [Packet.size, RxFrame.packet, List.length_take, (net.rxFrame frame).payload_length]
  exact Nat.min_eq_left hle

/-- The packet `p` is one of those that may be stored for `frame`: behind the bytes of
the frame it has some others. -/
def RxFrame.StoredAs (frame : RxFrame) (p : Packet) : Prop :=
  p.hdr = frame.hdr ∧ p.hwts = frame.hwts ∧ p.size = frame.recvd ∧
    p.payload.take frame.body.length = frame.body

theorem RxFrame.storedAs_packet (frame : RxFrame) (net : NetState) :
    frame.StoredAs (frame.packet net) := by
  refine ⟨rfl, rfl, frame.size_packet net, ?_⟩
  have hle : frame.body.length ≤ frame.recvd := Nat.le_add_left _ _
  rw [RxFrame.packet, List.take_take, Nat.min_eq_left hle]
  exact List.take_left

/-- The frame goes to the queue of socket `i`: the first one in use whose address and
ethertype match, if there is room. -/
def QueuedOn (net : NetState) (frame : RxFrame) (i : Fin NET_MAX_SOCKETS) : Prop :=
  (net.socks i).accepts frame.hdr = true ∧
    (∀ j, j < i → (net.socks j).accepts frame.hdr = false) ∧
    ETH_HEADER_SIZE + frame.recvd + 24 + 2 ≤ (net.socks i).queue.avail

instance (net : NetState) (frame : RxFrame) (i : Fin NET_MAX_SOCKETS) :
    Decidable (QueuedOn net frame i) :=
  inferInstanceAs (Decidable (_ ∧ _ ∧ _))

theorem QueuedOn.unique {net : NetState} {frame : RxFrame} {i j : Fin NET_MAX_SOCKETS}
    (hi : QueuedOn net frame i) (hj : QueuedOn net frame j) : i = j := by
  rcases lt_trichotomy i j with h | h | h
  · exact absurd hi.1 (by rw [hj.2.1 i h]; decide)
  · exact h
  · exact absurd hj.1 (by rw [hi.2.1 j h]; decide)

theorem updateRxQueues_queued {net : NetState} {frame : RxFrame} {i : Fin NET_MAX_SOCKETS}
    (h : QueuedOn net frame i) :
    (updateRxQueues net (some frame)).socks =
      Function.update net.socks i { net.socks i with
        queue := copyPacketOut (net.socks i).queue frame.recvd frame.hdr frame.hwts
          (frame.packet net).payload } := by
  have hfind : findSocket net.socks frame.hdr = some i :=
    Fin.find?_eq_some_iff.mpr ⟨h.1, h.2.1⟩
  have hle : frame.recvd ≤ NET_SKBUF_SIZE - 32 := frame.fits
  have hsize : u16 frame.recvd = frame.recvd := by
    unfold NET_SKBUF_SIZE at hle
    exact u16_eq_self (by omega)
  have hsocks : (net.rxFrame frame).socks = net.socks := rfl
  simp only [updateRxQueues, hsocks, hfind, hsize]
  rw [if_neg (Nat.not_lt.mpr h.2.2)]
  rfl

/-- A frame that no socket takes leaves all sockets as they are. -/
theorem updateRxQueues_dropped {net : NetState} {frame : RxFrame}
    (h : ∀ i, ¬ QueuedOn net frame i) :
    (updateRxQueues net (some frame)).socks = net.socks := by
  have hsocks : (net.rxFrame frame).socks = net.socks := rfl
  simp only [updateRxQueues, hsocks]
  cases hfind : findSocket net.socks frame.hdr with
  | none => rfl
  | some i =>
      obtain ⟨haccepts, hfirst⟩ := Fin.find?_eq_some_iff.mp hfind
      have hfull : (net.socks i).queue.avail < ETH_HEADER_SIZE + frame.recvd + 24 + 2 :=
        Nat.not_le.mp fun hroom => h i ⟨haccepts, hfirst, hroom⟩
      simp only [if_pos hfull]
      rfl

/-- Queueing a frame appends its packet. -/
theorem updateRxQueues_holds {net : NetState} {frame : RxFrame} {i : Fin NET_MAX_SOCKETS}
    (h : QueuedOn net frame i) {ps : List Packet} (hholds : (net.socks i).queue.Holds ps) :
    ((updateRxQueues net (some frame)).socks i).queue.Holds (ps ++ [frame.packet net]) := by
  have hroom : ETH_HEADER_SIZE + frame.recvd + 24 + 2 ≤ (net.socks i).queue.avail := h.2.2
  have hsize := frame.size_packet net
  have hcopy := copyPacketOut_holds hholds (frame.packet net)
    (by unfold ETH_HEADER_SIZE at hroom; omega)
  rw [hsize] at hcopy
  rw [updateRxQueues_queued h, Function.update_self]
  exact hcopy

/-! ## The framing of the queue -/

/-- The header of an ARP broadcast. -/
def arpHdr : EthHdr := ⟨fun _ => 255, fun _ => 2, 0x0806⟩

/-- An ARP broadcast with `n` bytes behind its header. -/
def arpFrame (n : Nat) (hn : n ≤ 466) : RxFrame where
  hdr := arpHdr
  hwts := ⟨1, 0, 0, 0, 0⟩
  body := List.replicate n 0
  fits := by
    rw [List.length_replicate]
    unfold ETH_HEADER_SIZE NET_SKBUF_SIZE
    omega

theorem recvd_arpFrame (n : Nat) (hn : n ≤ 466) : (arpFrame n hn).recvd = 14 + n := by
  rw [RxFrame.recvd, arpFrame, List.length_replicate, ETH_HEADER_SIZE]

/-- The ARP socket of `arp_init`. -/
def arpSocket : MySocket where
  inUse := true
  mac := fun _ => 255
  ethertype := 0x0806
  phaseTransition := 0
  queue := ⟨Vector.replicate _ 0, 0, 0, NET_SKBUF_SIZE, 0⟩

/-- A socket as `ptpd_netif_init` clears it. -/
def clearedSocket : MySocket where
  inUse := false
  mac := fun _ => 0
  ethertype := 0
  phaseTransition := 0
  queue := ⟨Vector.replicate _ 0, 0, 0, 0, 0⟩

/-- The ARP socket is open, the others are not. -/
def arpNet : NetState where
  socks i := if i = 0 then arpSocket else clearedSocket
  payload := List.replicate 480 0
  payload_length := List.length_replicate

theorem arpNet_holds : (arpNet.socks 0).queue.Holds [] :=
  Sockq.holds_nil rfl rfl rfl rfl

theorem arpSocket_accepts : arpSocket.accepts arpHdr = true := by decide

theorem arpNet_queued {n : Nat} (hn : n ≤ 466) (hroom : n ≤ 458) :
    QueuedOn arpNet (arpFrame n hn) 0 := by
  refine ⟨arpSocket_accepts, fun j hj => absurd hj (Nat.not_lt_zero _), ?_⟩
  have havail : (arpNet.socks 0).queue.avail = 512 := rfl
  rw [recvd_arpFrame, havail, ETH_HEADER_SIZE]
  omega

/-- After a frame that is longer than the buffer, the second one is not found. -/
theorem second_misframed {net : NetState} {first second : RxFrame} {i : Fin NET_MAX_SOCKETS}
    (hempty : (net.socks i).queue.Holds []) (hfirst : QueuedOn net first i)
    (hsecond : QueuedOn (updateRxQueues net (some first)) second i) {dataLength : Nat}
    (hlong : dataLength < first.recvd) :
    let net := run netStep net [.updateRxQueues (some first), .updateRxQueues (some second)]
    ∃ p q, (net.socks i).queue.Holds [p, q] ∧
      ¬ (ptpdNetifRecvfrom (net.socks i) dataLength none).2.queue.Holds [q] := by
  have hholds := updateRxQueues_holds hsecond (updateRxQueues_holds hfirst hempty)
  exact ⟨_, _, hholds, recvfrom_misframed hholds (by rwa [RxFrame.size_packet]) none⟩

/-- One receive call leaves a queue of the remaining packets exactly when the caller's
buffer has room for the stored packet. -/
theorem recvfrom_framed_iff {s : MySocket} {p : Packet} {ps : List Packet}
    (h : s.queue.Holds (p :: ps)) (dataLength : Nat) (ptracker : Option Int) :
    (ptpdNetifRecvfrom s dataLength ptracker).2.queue.Holds ps ↔ p.size ≤ dataLength :=
  ⟨fun hholds => Nat.not_lt.mp fun hlong => recvfrom_misframed h hlong ptracker hholds,
    fun hfits => recvfrom_framed h hfits ptracker⟩

theorem recvfrom_framed_iff_arp :
    (ptpdNetifRecvfrom ((updateRxQueues arpNet (some (arpFrame 46 (by decide)))).socks 0) 128
        none).2.queue.Holds [] ↔
      ((arpFrame 46 (by decide)).packet arpNet).size ≤ 128 :=
  recvfrom_framed_iff (updateRxQueues_holds (arpNet_queued (by decide) (by decide)) arpNet_holds)
    128 none

/-- The buffer of `arp_poll` has 128 bytes: after a longer frame, the next packet is not
found. -/
theorem recvfrom_misframes :
    let net := run netStep arpNet [.updateRxQueues (some (arpFrame 186 (by decide))),
      .updateRxQueues (some (arpFrame 46 (by decide)))]
    ∃ p q, (net.socks 0).queue.Holds [p, q] ∧
      ¬ (ptpdNetifRecvfrom (net.socks 0) 128 none).2.queue.Holds [q] := by
  have hsecond : QueuedOn (updateRxQueues arpNet (some (arpFrame 186 (by decide))))
      (arpFrame 46 (by decide)) 0 := by
    decide +kernel
  exact second_misframed arpNet_holds (arpNet_queued _ (by decide)) hsecond
    (by rw [recvd_arpFrame]; decide)

/-! ## Runs with their history -/

/-- The sockets, with the frames that were queued and the results that were returned on
each of them so far. -/
structure History where
  net : NetState
  queued : Fin NET_MAX_SOCKETS → List RxFrame
  returned : Fin NET_MAX_SOCKETS → List RecvResult

def History.start (net : NetState) : History where
  net := net
  queued _ := []
  returned _ := []

def History.step (h : History) (e : NetEvent) : History :=
  match e with
  | .updateRxQueues none => { h with net := netStep h.net e }
  | .updateRxQueues (some frame) =>
      { h with
        net := netStep h.net e
        queued := fun i =>
          if QueuedOn h.net frame i then h.queued i ++ [frame] else h.queued i }
  | .recvfrom sock dataLength ptracker =>
      let result := (ptpdNetifRecvfrom (h.net.socks sock) dataLength ptracker).1
      { h with
        net := netStep h.net e
        returned := Function.update h.returned sock (h.returned sock ++ result.toList) }

/-- The history only observes the sockets. -/
theorem History.net_run (h : History) (es : List NetEvent) :
    (run History.step h es).net = run netStep h.net es := by
  refine run_watched History.net (fun t e => ?_) h es
  rcases e with (_ | _) | _ <;> rfl

/-- The result `r` is that of the frame: its addresses, its ethertype, all its bytes
behind the header, and a timestamp made from its own. -/
structure RxFrame.ReturnedAs (phaseTransition : Int) (frame : RxFrame) (r : RecvResult) :
    Prop where
  rval : r.rval = frame.body.length
  ethertype : r.ethertype = frame.hdr.ethtype
  mac : r.mac = frame.hdr.srcmac
  macDest : r.macDest = frame.hdr.dstmac
  data : r.data.take frame.body.length = frame.body
  rxTimestamp : ∀ ts, r.rxTimestamp = some ts →
    ts = rxTimestampOf frame.hwts ts.rawPhase phaseTransition

/-- The queued frames of the socket `s` are those already returned, in the order of
their results, followed by those that its queue holds. -/
def InOrder (s : MySocket) (queued : List RxFrame) (returned : List RecvResult) : Prop :=
  ∃ delivered waiting packets, queued = delivered ++ waiting ∧
    List.Forall₂ (RxFrame.ReturnedAs s.phaseTransition) delivered returned ∧
    List.Forall₂ RxFrame.StoredAs waiting packets ∧ s.queue.Holds packets

/-- The stored size of the packet at the front, read from the queue itself. -/
def frontSize (q : Sockq) : Nat := beNumber (wrapCopyIn q 2).1

/-- Every receive call has room for the packet at the front of the queue. -/
def LongEnough (h : History) : NetEvent → Prop
  | .updateRxQueues _ => True
  | .recvfrom sock dataLength _ =>
      (h.net.socks sock).queue.n ≠ 0 → frontSize (h.net.socks sock).queue ≤ dataLength

theorem frontSize_eq {q : Sockq} {p : Packet} {ps : List Packet} (h : q.Holds (p :: ps)) :
    frontSize q = p.size := by
  have hbytes := h.bytes
  rw [records_cons, Packet.record, List.append_assoc] at hbytes
  have hcopy := hbytes.copyIn.1
  rw [length_beBytes] at hcopy
  exact (congrArg beNumber hcopy).trans p.beNumber_size

/-- The result of a packet that is stored for a frame, with room for all of it. -/
theorem RxFrame.StoredAs.returnedAs {frame : RxFrame} {p : Packet} (h : frame.StoredAs p)
    {dataLength : Nat} (hfits : p.size ≤ dataLength) (ptracker : Option Int)
    (phaseTransition : Int) :
    frame.ReturnedAs phaseTransition (p.result dataLength ptracker phaseTransition) := by
  obtain ⟨hhdr, hhwts, hsize, hbody⟩ := h
  have hbodySize : p.size - ETH_HEADER_SIZE = frame.body.length := by
    rw [hsize, RxFrame.recvd, Nat.add_sub_cancel_left]
  refine ⟨?_, ?_, ?_, ?_, ?_, ?_⟩
  · have hle : frame.body.length ≤ dataLength := by omega
    simp only [Packet.result, hbodySize, Nat.min_eq_left hle]
  · rw [Packet.result, hhdr]
  · rw [Packet.result, hhdr]
  · rw [Packet.result, hhdr]
  · have hall : p.payload.take dataLength = p.payload := List.take_of_length_le hfits
    rw [Packet.result, hall, hbody]
  · intro ts hts
    obtain ⟨rawPhase, -, rfl⟩ := Option.map_eq_some_iff.mp hts
    rw [rxTimestampOf_rawPhase, hhwts]

/-- Queueing a frame keeps the order. -/
theorem InOrder.queued {s : MySocket} {queued : List RxFrame} {returned : List RecvResult}
    (h : InOrder s queued returned) (net : NetState) (frame : RxFrame)
    (hroom : 40 + frame.recvd ≤ s.queue.avail) :
    InOrder { s with
      queue := copyPacketOut s.queue frame.recvd frame.hdr frame.hwts
        (frame.packet net).payload } (queued ++ [frame]) returned := by
  obtain ⟨delivered, waiting, packets, rfl, hreturned, hstored, hholds⟩ := h
  have hsize := frame.size_packet net
  have hcopy := copyPacketOut_holds hholds (frame.packet net) (hsize ▸ hroom)
  rw [hsize] at hcopy
  exact ⟨delivered, waiting ++ [frame], packets ++ [frame.packet net], List.append_assoc ..,
    hreturned, List.rel_append hstored (.cons (frame.storedAs_packet net) .nil), hcopy⟩

/-- Receiving with enough room keeps the order. -/
theorem InOrder.recvfrom {s : MySocket} {queued : List RxFrame} {returned : List RecvResult}
    (h : InOrder s queued returned) (dataLength : Nat) (ptracker : Option Int)
    (hlong : s.queue.n ≠ 0 → frontSize s.queue ≤ dataLength) :
    InOrder (ptpdNetifRecvfrom s dataLength ptracker).2 queued
      (returned ++ (ptpdNetifRecvfrom s dataLength ptracker).1.toList) := by
  obtain ⟨delivered, waiting, packets, rfl, hreturned, hstored, hholds⟩ := h
  cases hstored with
  | nil =>
      have hkeep : InOrder s (delivered ++ []) returned :=
        ⟨delivered, [], [], rfl, hreturned, .nil, hholds⟩
      rw [recvfrom_empty hholds]
      simpa only [Option.toList_none, List.append_nil] using hkeep
  | @cons frame p waiting packets hstored hrest =>
      have hn : s.queue.n ≠ 0 := by
        rw [hholds.n_eq]
        exact Nat.succ_ne_zero _
      have hfits : p.size ≤ dataLength := frontSize_eq hholds ▸ hlong hn
      have hframed := recvfrom_framed hholds hfits ptracker
      obtain ⟨hresult, hsock⟩ := recvfrom_spec hholds dataLength ptracker
      have hphase : (ptpdNetifRecvfrom s dataLength ptracker).2.phaseTransition =
          s.phaseTransition := by
        rw [hsock]
      refine ⟨delivered ++ [frame], waiting, packets, (List.append_cons ..), ?_, hrest, hframed⟩
      rw [hphase, hresult, Option.toList_some]
      exact List.rel_append hreturned (.cons (hstored.returnedAs hfits ptracker _) .nil)

/-- A queue as `ptpd_netif_init` clears it. -/
def Sockq.Cleared (q : Sockq) : Prop :=
  q.head = 0 ∧ q.tail = 0 ∧ q.avail = 0 ∧ q.n = 0

/-- A socket with its history: in order, or never used. -/
def Served (s : MySocket) (queued : List RxFrame) (returned : List RecvResult) : Prop :=
  InOrder s queued returned ∨
    s.inUse = false ∧ s.queue.Cleared ∧ queued = [] ∧ returned = []

def History.AllServed (h : History) : Prop :=
  ∀ i, Served (h.net.socks i) (h.queued i) (h.returned i)

/-- What one operation does to the sockets and their history. -/
theorem History.allServed_step (h : History) (e : NetEvent) (hserved : h.AllServed)
    (hlong : LongEnough h e) : (h.step e).AllServed := by
  intro i
  -- no frame, a frame, a receive call
  rcases e with (_ | frame) | ⟨sock, dataLength, ptracker⟩
  · exact hserved i
  · by_cases hdropped : ∀ j, ¬ QueuedOn h.net frame j
    · have hsocks := updateRxQueues_dropped hdropped
      simp only [History.step, netStep, if_neg (hdropped i), hsocks]
      exact hserved i
    · push Not at hdropped
      obtain ⟨j, hj⟩ := hdropped
      simp only [History.step, netStep, updateRxQueues_queued hj]
      by_cases hij : i = j
      · subst hij
        rw [if_pos hj, Function.update_self]
        have hroom : ETH_HEADER_SIZE + frame.recvd + 24 + 2 ≤ (h.net.socks i).queue.avail := hj.2.2
        rcases hserved i with horder | ⟨hidle, -⟩
        · exact .inl (horder.queued h.net frame (by unfold ETH_HEADER_SIZE at hroom; omega))
        · exact absurd hj.1 (by simp [MySocket.accepts, hidle])
      -- at most one socket queues the frame
      · have hother : ¬ QueuedOn h.net frame i := fun hi => hij (hi.unique hj)
        rw [if_neg hother, Function.update_of_ne hij]
        exact hserved i
  · simp only [History.step, netStep]
    by_cases hsock : i = sock
    · subst hsock
      rw [Function.update_self, Function.update_self]
      rcases hserved i with horder | ⟨hidle, hcleared, hqueued, hreturned⟩
      · exact .inl (horder.recvfrom dataLength ptracker hlong)
      · have hnone : ptpdNetifRecvfrom (h.net.socks i) dataLength ptracker =
            (none, h.net.socks i) := if_pos hcleared.2.2.2
        rw [hnone, hreturned]
        exact .inr ⟨hidle, hcleared, hqueued, rfl⟩
    · rw [Function.update_of_ne hsock, Function.update_of_ne hsock]
      exact hserved i

/-- The sockets before the first frame: those in use have an empty queue. -/
def NetState.Bound (net : NetState) : Prop :=
  ∀ i, (net.socks i).queue.Holds [] ∨
    (net.socks i).inUse = false ∧ (net.socks i).queue.Cleared

theorem NetState.Bound.allServed {net : NetState} (h : net.Bound) :
    (History.start net).AllServed := by
  intro i
  rcases h i with hempty | ⟨hidle, hcleared⟩
  · exact .inl ⟨[], [], [], rfl, .nil, .nil, hempty⟩
  · exact .inr ⟨hidle, hcleared, rfl, rfl⟩

theorem History.run_allServed {net : NetState} (hbound : net.Bound) {es : List NetEvent}
    (hlong : Along History.step LongEnough (History.start net) es) :
    (run History.step (History.start net) es).AllServed :=
  run_invariant_of_along History.AllServed History.allServed_step hbound.allServed hlong

theorem Served.consistent {s : MySocket} {queued : List RxFrame} {returned : List RecvResult}
    (h : Served s queued returned) : s.queue.Consistent := by
  rcases h with ⟨-, -, packets, -, -, -, hholds⟩ | ⟨-, ⟨hhead, htail, havail, -⟩, -, -⟩
  · exact hholds.consistent
  · rw [Sockq.Consistent, hhead, htail, havail]
    decide

/-- The frames of a socket are those returned, in this order, and those counted by `n`. -/
theorem Served.delivered {s : MySocket} {queued : List RxFrame} {returned : List RecvResult}
    (h : Served s queued returned) :
    ∃ delivered waiting, queued = delivered ++ waiting ∧
      List.Forall₂ (RxFrame.ReturnedAs s.phaseTransition) delivered returned ∧
      s.queue.n = waiting.length := by
  rcases h with ⟨delivered, waiting, packets, hqueued, hreturned, hstored, hholds⟩ |
    ⟨-, hcleared, hqueued, hreturned⟩
  · exact ⟨delivered, waiting, hqueued, hreturned, hholds.n_eq.trans hstored.length_eq.symm⟩
  · exact ⟨[], [], hqueued, hreturned ▸ .nil, hcleared.2.2.2⟩

/-- A frame that is not queued on a socket leaves the queue of the socket unchanged. -/
theorem updateRxQueues_other {net : NetState} {frame : RxFrame} {i : Fin NET_MAX_SOCKETS}
    (h : ¬ QueuedOn net frame i) :
    ((updateRxQueues net (some frame)).socks i).queue = (net.socks i).queue := by
  by_cases hdropped : ∀ j, ¬ QueuedOn net frame j
  · rw [updateRxQueues_dropped hdropped]
  · push Not at hdropped
    obtain ⟨j, hj⟩ := hdropped
    have hij : i ≠ j := fun heq => h (heq ▸ hj)
    rw [updateRxQueues_queued hj, Function.update_of_ne hij]

theorem arpNet_bound : arpNet.Bound := by
  intro i
  by_cases hi : i = 0
  · subst hi
    exact .inl arpNet_holds
  · have hsock : arpNet.socks i = clearedSocket := if_neg hi
    rw [hsock]
    exact .inr ⟨rfl, rfl, rfl, rfl, rfl⟩

end Net
end WrpcSw
