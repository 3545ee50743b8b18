import WrpcSw.Dev.MinicTx
import WrpcSw.Net.IpNode

/-!
# Packets on the wire (`lib/net.c`)

`ptpd_netif_sendto` puts the Ethernet header before a packet and gives both to the Mini-NIC; another
node has what was on the wire as a received frame.

* `ptpdNetifSendto_sends` — what is on the wire, and when the buffer of the Mini-NIC is large
  enough.
* `NodePacket` — what an IP node sends: requests for an address, echo replies and ARP replies.
* `NodePacket.ignored` — no node takes such a packet for something to answer.
-/

namespace WrpcSw
namespace Net

open Memory
open Minic (TxIo minicTxFrame txFrame padded wordAt TX_DESC_VALID TX_DESC_WITH_OOB
  MINIC_DMA_TX_BUF_SIZE)

/-! ## Sending -/

/-- What a call of `ptpd_netif_sendto` leaves: the buffer of the Mini-NIC, its return value, and the
timestamp if the caller wants one. -/
structure SendResult where
  txBuf : Nat → UInt8
  rval : Int
  txTimestamp : Option WrTimestamp

/-- The header of a packet that is sent from the address `localMac`. -/
def sendHdr (localMac : MacAddr) (dest : SockAddr) : EthHdr := ⟨dest.mac, localMac, dest.ethertype⟩

/-- `stack` is what the uninitialised `hwts` has. -/
def ptpdNetifSendto (txBuf : Nat → UInt8) (io : TxIo) (localMac : MacAddr) (dest : SockAddr)
    (data : List UInt8) (stack : HwTimestamp) (txTimestamp : Option WrTimestamp) : SendResult :=
  let r := minicTxFrame txBuf io (sendHdr localMac dest).toBytes data
    (UInt32.ofNat data.length + UInt32.ofNat ETH_HEADER_SIZE) (some stack)
  { txBuf := r.txBuf
    rval := r.ret.toInt32.toInt
    txTimestamp := txTimestamp.bind fun ts => r.hwts.map fun hwts =>
      { ts with
        sec := hwts.sec.toInt64.toInt
        nsec := hwts.nsec.toInt32.toInt
        phase := 0
        correct := hwts.valid.toNat } }

/-- The received frame is what was on the wire for a packet. -/
def RxFrame.Carries (frame : RxFrame) (s : Sent) : Prop :=
  ∃ localMac, frame.hdr.toBytes ++ frame.body =
    padded ((sendHdr localMac s.dest).toBytes ++ s.data)

/-- The buffer of a poll has such a frame. -/
def Incoming.Carries (p : Incoming) (s : Sent) : Prop :=
  ∃ frame : RxFrame, frame.Carries s ∧ HoldsAt p.buf 0 frame.body ∧ p.len = frame.body.length

section Carries

variable {s : Sent}

/-- The header of the frame is that of the packet; its body is the packet with zeros behind. -/
theorem RxFrame.Carries.parts {frame : RxFrame} (h : frame.Carries s) :
    frame.hdr.ethtype = s.dest.ethertype ∧ frame.hdr.dstmac = s.dest.mac ∧
      ∃ k, frame.body = s.data ++ List.replicate k 0 ∧
        frame.body.length = max 46 s.data.length + max 46 s.data.length % 2 := by
  obtain ⟨localMac, hbytes⟩ := h
  have hlength : ((sendHdr localMac s.dest).toBytes ++ s.data).length = 14 + s.data.length := by
    rw [List.length_append, EthHdr.length_toBytes]
  unfold padded at hbytes
  rw [hlength, List.append_assoc, List.append_assoc, List.replicate_append_replicate] at hbytes
  obtain ⟨hhdr, hbody⟩ := List.append_inj hbytes (by simp only [EthHdr.length_toBytes])
  have hheader : frame.hdr = sendHdr localMac s.dest := by
    rw [← EthHdr.ofBytes_toBytes frame.hdr, hhdr, EthHdr.ofBytes_toBytes]
  refine ⟨by rw [hheader]; rfl, by rw [hheader]; rfl, _, hbody, ?_⟩
  rw [hbody, List.length_append, List.length_replicate]
  omega

variable {p : Incoming}

theorem Incoming.Carries.length (h : p.Carries s) :
    p.len = (max 46 s.data.length + max 46 s.data.length % 2 : Nat) := by
  obtain ⟨frame, hframe, -, hlen⟩ := h
  obtain ⟨-, -, -, -, hlength⟩ := hframe.parts
  rw [hlen, hlength]

theorem Incoming.Carries.data (h : p.Carries s) : HoldsAt p.buf 0 s.data := by
  obtain ⟨frame, hframe, hholds, -⟩ := h
  obtain ⟨-, -, k, hbody, -⟩ := hframe.parts
  rw [hbody] at hholds
  exact hholds.split.1

/-- A byte of the shortest body is one of the packet, or zero. -/
theorem Incoming.Carries.byte (h : p.Carries s) {i : Nat} (hi : i < 46) :
    p.buf i = s.data[i]?.getD 0 := by
  obtain ⟨frame, hframe, hholds, -⟩ := h
  obtain ⟨-, -, k, hbody, hlength⟩ := hframe.parts
  have hin : i < frame.body.length := by omega
  have hbyte : p.buf (0 + i) = frame.body[i] := hholds.getElem hin
  rw [Nat.zero_add] at hbyte
  rw [hbyte]
  simp only [hbody]
  by_cases hdata : i < s.data.length
  · rw [List.getElem_append_left hdata, List.getElem?_eq_getElem hdata, Option.getD_some]
  · rw [List.getElem_append_right (by omega), List.getElem_replicate,
      List.getElem?_eq_none (by omega), Option.getD_none]

end Carries

/-! ## The packets of a node -/

/-- A packet that a node sends on its own account or as an answer. -/
inductive NodePacket : Sent → Prop
  | request (mac : Vector UInt8 6) (retry : Int) :
      NodePacket ⟨⟨broadcastMac, 0x0800⟩, bootpPacket mac retry⟩
  | pong (dest : SockAddr) (ip : Vector UInt8 4) (buf : Nat → UInt8) :
      NodePacket ⟨dest, readAt (wholeReply ip buf) 0 (24 + hisBodyLen buf).toNat⟩
  | resolve (dest : SockAddr) (a : ArpMessage) (h : a.oper = 2) : NodePacket ⟨dest, a.toBytes⟩

theorem nodePacket_of_pong {ip : Vector UInt8 4} {buf : Nat → UInt8} {len : Int} {dest : SockAddr}
    {s : Sent} (h : s ∈ sendBack dest (processIcmp ip buf len)) : NodePacket s := by
  unfold sendBack at h
  by_cases hrequest : EchoRequest ip buf
  · rw [processIcmp_request hrequest] at h
    split_ifs at h
    · rw [List.mem_singleton.mp h]
      exact .pong dest ip buf
    · exact absurd h (List.not_mem_nil)
  · rw [processIcmp_other hrequest] at h
    exact absurd h (List.not_mem_nil)

theorem nodePacket_of_arpPoll {mac : Vector UInt8 6} {ip : IpState} {p : Option Incoming} {s : Sent}
    (h : s ∈ arpPoll mac ip p) : NodePacket s := by
  cases p with
  | none => exact absurd h (List.not_mem_nil)
  | some p =>
      have hpoll : s ∈ sendBack p.sender (processArp mac ip.myIP p.buf p.len) := by
        unfold arpPoll at h
        dsimp only at h
        split_ifs at h
        · exact h
        · exact absurd h (List.not_mem_nil)
      unfold sendBack at hpoll
      by_cases hrequest : ArpRequest ip.myIP p.buf p.len
      · rw [processArp_request mac hrequest] at hpoll
        have hbytes : readAt
            (writeAt p.buf 0 ((ArpMessage.ofBuffer p.buf).reply mac ip.myIP).toBytes)
            0 (28 : Int).toNat = ((ArpMessage.ofBuffer p.buf).reply mac ip.myIP).toBytes :=
          readAt_writeAt_of_length p.buf 0 _ (ArpMessage.length_toBytes _)
        have hanswered : (0 : Int) < 28 := by decide
        rw [if_pos hanswered, List.mem_singleton, hbytes] at hpoll
        rw [hpoll]
        exact .resolve p.sender _ rfl
      · rw [processArp_other mac hrequest] at hpoll
        exact absurd hpoll (List.not_mem_nil)

/-- The request of a poll. -/
theorem ipv4Request_sends {mac : Vector UInt8 6} {ip : IpState} {buf : Nat → UInt8} {s : Sent}
    (h : s ∈ (ipv4Request mac ip buf).2) :
    ∃ retry, s = ⟨⟨broadcastMac, 0x0800⟩, bootpPacket mac retry⟩ := by
  by_cases hdue : ip.needIP ∧ ip.bootpTimer = 0
  · rw [ipv4Request_due hdue] at h
    exact ⟨_, List.mem_singleton.mp h⟩
  · unfold ipv4Request at h
    rw [if_neg hdue] at h
    exact absurd h (List.not_mem_nil)

/-- Whatever a node receives, what it sends is one of these packets. -/
theorem nodePacket_of_sent {n : Node} {e : NodeEvent} {s : Sent} (h : s ∈ sentAt n e) :
    NodePacket s := by
  unfold sentAt Node.act at h
  cases e with
  | updateRxQueues frame => exact absurd h (List.not_mem_nil)
  | ipv4Poll stack =>
      unfold ipv4Poll at h
      dsimp only at h
      rcases List.mem_append.mp h with hreply | hrequest
      · cases hp : n.received (.ipv4Poll stack) with
        | none =>
            rw [hp] at hreply
            exact absurd hreply (List.not_mem_nil)
        | some p =>
            rw [hp] at hreply
            unfold ipv4Receive at hreply
            dsimp only at hreply
            split_ifs at hreply <;> first
              | exact absurd hreply (List.not_mem_nil)
              | exact nodePacket_of_pong hreply
      · obtain ⟨retry, rfl⟩ := ipv4Request_sends hrequest
        exact .request n.mac retry
  | arpPoll stack => exact nodePacket_of_arpPoll h
  | linkWentUp => exact absurd h (List.not_mem_nil)
  | cmdIpSet ip => exact absurd h (List.not_mem_nil)
  | cmdMacSet mac => exact absurd h (List.not_mem_nil)

/-! ## What nobody answers -/

theorem hisBodyLen_le (buf : Nat → UInt8) : hisBodyLen buf ≤ 64 := by
  unfold hisBodyLen
  split_ifs <;> omega

/-- An echo reply has no fragment offset and the type zero, as far as it goes. -/
theorem wholeReply_bytes (ip : Vector UInt8 4) (buf : Nat → UInt8) :
    wholeReply ip buf 7 = 0 ∧ wholeReply ip buf 20 = 0 := by
  constructor
  · rw [wholeReply_outside ip buf (Or.inl (by omega)) (Or.inl (by omega))]
    exact (replyFields_header ip buf).getElem (i := 7) (by simp)
  · rw [wholeReply_outside ip buf (Or.inr (by omega)) (Or.inl (by omega))]
    exact (replyFields_icmp ip buf).getElem (i := 0) (by simp)

/-- A byte of the beginning of a reply, or one of the zeros behind it. -/
theorem getD_readAt_eq_zero {m : Nat → UInt8} {i n : Nat} (h : m i = 0) :
    (readAt m 0 n)[i]?.getD 0 = 0 := by
  by_cases hi : i < n
  · have hlength : i < (readAt m 0 n).length := by rwa [length_readAt]
    rw [List.getElem?_eq_getElem hlength, Option.getD_some, getElem_readAt, Nat.zero_add, h]
  · rw [List.getElem?_eq_none (by rw [length_readAt]; omega), Option.getD_none]

section NodePacket

variable {s : Sent}

/-- What a node sees of a received packet that it does not answer. -/
structure Ignored (p : Incoming) : Prop where
  bootp : ∀ mac, ¬ BootpReply mac p.buf p.len
  echo : ∀ ip, ¬ EchoRequest ip p.buf
  arp : ∀ ip, ¬ ArpRequest ip p.buf p.len

theorem ignored_request {p : Incoming} {mac : Vector UInt8 6} {retry : Int}
    (h : HoldsAt p.buf 0 (bootpPacket mac retry)) : Ignored p := by
  obtain ⟨hip, -⟩ := packet_parts h
  refine ⟨fun mac' => not_bootpReply_packet h mac' _, fun ip hrequest => ?_,
    fun ip hrequest => ?_⟩
  · have hprotocol : p.buf ipProtocol = 17 := hip.getElem (i := 9) (by simp [bootpIp])
    rw [hrequest.protocol] at hprotocol
    exact absurd hprotocol (by decide)
  · have hoffset : p.buf (arpOper + 1) = 0 := hip.getElem (i := 7) (by simp [bootpIp])
    rw [hrequest.low] at hoffset
    exact absurd hoffset (by decide)

/-- No node takes a packet of a node for something to answer, whichever of its two sockets it comes
from. -/
theorem NodePacket.ignored (h : NodePacket s) {p : Incoming} (hp : p.Carries s) : Ignored p := by
  have hlength := hp.length
  have hend : (bootpEnd : Int) = 328 := rfl
  cases h with
  | request mac retry => exact ignored_request hp.data
  | pong dest ip buf =>
      obtain ⟨hoffset, htype⟩ := wholeReply_bytes ip buf
      have hbody := hisBodyLen_le buf
      rw [length_readAt] at hlength
      refine ⟨fun mac hreply => ?_, fun ip' hrequest => ?_, fun ip' hrequest => ?_⟩
      · have hwhole := hreply.whole
        omega
      · have hzero : p.buf icmpType = 0 :=
          (hp.byte (i := 20) (by decide)).trans (getD_readAt_eq_zero htype)
        rw [hrequest.type] at hzero
        exact absurd hzero (by decide)
      · have hzero : p.buf (arpOper + 1) = 0 :=
          (hp.byte (i := 7) (by decide)).trans (getD_readAt_eq_zero hoffset)
        rw [hrequest.low] at hzero
        exact absurd hzero (by decide)
  | resolve dest a ha =>
      obtain ⟨hhead, -⟩ := ArpMessage.parts hp.data
      rw [ArpMessage.length_toBytes] at hlength
      refine ⟨fun mac hreply => ?_, fun ip hrequest => ?_, fun ip hrequest => ?_⟩
      · have hwhole := hreply.whole
        omega
      · have hversion : p.buf ipVersion = 0 := hhead.getElem (i := 0) (by simp)
        rw [hrequest.version] at hversion
        exact absurd hversion (by decide)
      · have hoper : p.buf (arpOper + 1) = a.oper := hhead.getElem (i := 7) (by simp)
        rw [hrequest.low, ha] at hoper
        exact absurd hoper (by decide)

/-- The polls of a node that has received such a packet. -/
theorem Ignored.ipv4Receive {p : Incoming} (h : Ignored p) (mac : Vector UInt8 6) (ip : IpState) :
    ipv4Receive mac ip p = (ip, p.buf, []) := by
  unfold Net.ipv4Receive
  by_cases hneed : ip.needIP = true
  · rw [if_pos hneed, processBootp_other (h.bootp mac), if_pos hneed]
    exact ite_self _
  · rw [if_neg hneed, if_neg hneed, processIcmp_other (h.echo ip.myIP)]
    exact ite_self _

theorem Ignored.arpPoll {p : Incoming} (h : Ignored p) (mac : Vector UInt8 6) (ip : IpState) :
    arpPoll mac ip (some p) = [] := by
  unfold Net.arpPoll
  dsimp only
  rw [processArp_other mac (h.arp ip.myIP)]
  exact ite_self _

end NodePacket

end Net
end WrpcSw
