import WrpcSw.Net.BootpReply
import WrpcSw.Net.Netif

/-!
# The IP node (`lib/ipv4.c`, `lib/arp.c`, `wrc_main.c`)

With `CONFIG_ETHERBONE` the main loop distributes the received frames and polls the two sockets of
the IP stack.  Without an address `ipv4_poll` asks for one, at every 100000th call; with an address
it answers pings, and `arp_poll` answers requests for the address.  An address comes from a BOOTP
reply or from the shell, and is given up when the link comes up again.

* `Node`, `nodeStep`, `sentAt` — the code: the state, an event, and the packets it sends.
* `Client`, `clientStep`, `clientSends` — what the node is for: a lease, and a count of the polls
  that waited for one.
* `node_refines_client` — both send the same packets in every run.
-/

namespace WrpcSw
namespace Net

open CInt Memory Run

/-! ## The code -/

/-- `wr_sockaddr_t`, as far as the IP stack sends with it. -/
structure SockAddr where
  mac : MacAddr
  ethertype : UInt16

/-- A packet that is given to `ptpd_netif_sendto`. -/
structure Sent where
  dest : SockAddr
  data : List UInt8

def broadcastMac : MacAddr := fun _ => 0xff

/-- The node: its sockets, the address registers of the endpoint, the variables of `ipv4.c`, and
the sockets of the IP stack. -/
structure Node where
  net : NetState
  mac : Vector UInt8 6
  ip : IpState
  ipv4Socket : Fin NET_MAX_SOCKETS
  arpSocket : Fin NET_MAX_SOCKETS

/-- What a poll has received: the sender, the buffer and the length. -/
structure Incoming where
  sender : SockAddr
  buf : Nat → UInt8
  len : Int

/-- The buffer of a caller of `ptpd_netif_recvfrom` lies over what was on the stack. -/
def incoming (stack : Nat → UInt8) (r : RecvResult) : Incoming where
  sender := ⟨r.mac, r.ethertype⟩
  buf := writeAt stack 0 r.data
  len := r.rval

/-- A reply that was made in the buffer, if there is one, goes back to the sender. -/
def sendBack (sender : SockAddr) (reply : Int × (Nat → UInt8)) : List Sent :=
  if reply.1 > 0 then [⟨sender, readAt reply.2 0 reply.1.toNat⟩] else []

/-- The first part of `ipv4_poll`: the variables, the buffer, and what is sent after a packet was
received. -/
def ipv4Receive (mac : Vector UInt8 6) (ip : IpState) (p : Incoming) :
    IpState × (Nat → UInt8) × List Sent :=
  if p.len > 0 then
    let ip := if ip.needIP then (processBootp mac ip p.buf p.len).2 else ip
    if ip.needIP then (ip, p.buf, [])
    else
      let reply := processIcmp ip.myIP p.buf p.len
      (ip, reply.2, sendBack p.sender reply)
  else (ip, p.buf, [])

/-- The second part: a request. -/
def ipv4Request (mac : Vector UInt8 6) (ip : IpState) (buf : Nat → UInt8) : IpState × List Sent :=
  if ip.needIP ∧ ip.bootpTimer = 0 then
    let retry := i32 (ip.bootpRetry + 1)
    let (len, buf) := sendBootp mac buf retry
    ({ ip with bootpRetry := retry }, [⟨⟨broadcastMac, 0x0800⟩, readAt buf 0 len.toNat⟩])
  else (ip, [])

/-- The last part: the timer. -/
def ipv4Timer (ip : IpState) : IpState :=
  if ip.needIP then
    let timer := ip.bootpTimer + 1
    { ip with bootpTimer := if timer = 100000 then 0 else timer }
  else ip

/-- `ipv4_poll`, with what `ptpd_netif_recvfrom` has returned. -/
def ipv4Poll (mac : Vector UInt8 6) (ip : IpState) (stack : Nat → UInt8) (p : Option Incoming) :
    IpState × List Sent :=
  let (ip, buf, replies) := match p with
    | none => (ip, stack, [])
    | some p => ipv4Receive mac ip p
  let (ip, requests) := ipv4Request mac ip buf
  (ipv4Timer ip, replies ++ requests)

/-- `arp_poll` with an address. -/
def arpPoll (mac : Vector UInt8 6) (ip : IpState) (p : Option Incoming) : List Sent :=
  match p with
  | none => []
  | some p =>
      if p.len > 0 then sendBack p.sender (processArp mac ip.myIP p.buf p.len) else []

/-- The size of the buffer of `ipv4_poll`. -/
def ipv4BufSize : Nat := 400

/-- The size of the buffer of `arp_poll`. -/
def arpBufSize : Nat := arpEnd + 100

/-- What happens to the node. -/
inductive NodeEvent where
  | updateRxQueues (frame : Option RxFrame)
  | ipv4Poll (stack : Nat → UInt8)
  | arpPoll (stack : Nat → UInt8)
  | linkWentUp
  | cmdIpSet (ip : Vector UInt8 4)
  | cmdMacSet (mac : Vector UInt8 6)

/-- What the poll of an event receives.  Without an address `arp_poll` does not look. -/
def Node.received (n : Node) : NodeEvent → Option Incoming
  | .ipv4Poll stack =>
      (ptpdNetifRecvfrom (n.net.socks n.ipv4Socket) ipv4BufSize none).1.map (incoming stack)
  | .arpPoll stack =>
      if n.ip.needIP then none
      else (ptpdNetifRecvfrom (n.net.socks n.arpSocket) arpBufSize none).1.map (incoming stack)
  | _ => none

/-- What an event does with the sockets. -/
def Node.netEvents (n : Node) : NodeEvent → List NetEvent
  | .updateRxQueues frame => [.updateRxQueues frame]
  | .ipv4Poll _ => [.recvfrom n.ipv4Socket ipv4BufSize none]
  | .arpPoll _ => if n.ip.needIP then [] else [.recvfrom n.arpSocket arpBufSize none]
  | _ => []

/-- The variables of `ipv4.c` after an event, and the packets it sends. -/
def Node.act (n : Node) (e : NodeEvent) : IpState × List Sent :=
  match e with
  | .updateRxQueues _ => (n.ip, [])
  | .ipv4Poll stack => Net.ipv4Poll n.mac n.ip stack (n.received e)
  | .arpPoll _ => (n.ip, Net.arpPoll n.mac n.ip (n.received e))
  | .linkWentUp => ({ n.ip with needIP := true }, [])
  | .cmdIpSet ip => (setIP n.ip ip, [])
  | .cmdMacSet _ => (n.ip, [])

def nodeStep (n : Node) (e : NodeEvent) : Node :=
  { n with
    net := run netStep n.net (n.netEvents e)
    mac := match e with
      | .cmdMacSet mac => mac
      | _ => n.mac
    ip := (n.act e).1 }

def sentAt (n : Node) (e : NodeEvent) : List Sent := (n.act e).2

/-- The variables at the start; the register of Etherbone is not initialised. -/
structure IpState.Booted (ip : IpState) : Prop where
  needIP : ip.needIP = true
  bootpRetry : ip.bootpRetry = 0
  bootpTimer : ip.bootpTimer = 0

/-! ## What the node is for -/

/-- A client of BOOTP with its lease, and the number of polls since its last lease that had to do
without one. -/
structure Client where
  lease : Option (Vector UInt8 4)
  waited : Nat

def Client.start : Client := ⟨none, 0⟩

/-- What reaches the client. -/
inductive ClientEvent where
  | poll (p : Option Incoming)
  | arp (p : Option Incoming)
  | linkWentUp
  | assign (ip : Vector UInt8 4)
  | other

/-- A client is given an address; the address zero gives it none. -/
def Client.assign (c : Client) (ip : Vector UInt8 4) : Client :=
  if ip = noIP then { c with lease := none } else ⟨some ip, 0⟩

open Classical in
/-- A client without a lease takes one from a reply. -/
noncomputable def Client.take (c : Client) (mac : Vector UInt8 6) : Option Incoming → Client
  | none => c
  | some p =>
      if c.lease = none ∧ BootpReply mac p.buf p.len then
        c.assign (vectorAt p.buf bootpYiaddr 4)
      else c

/-- A client that has no lease counts the poll. -/
def Client.wait (c : Client) : Client :=
  match c.lease with
  | none => { c with waited := c.waited + 1 }
  | some _ => c

/-- Every 100000th poll without a lease makes a request, the first one at once. -/
def Client.request (c : Client) (mac : Vector UInt8 6) : List Sent :=
  match c.lease with
  | none =>
      if c.waited % 100000 = 0 then
        [⟨⟨broadcastMac, 0x0800⟩, bootpPacket mac (i32 ((c.waited / 100000 : Nat) + 1))⟩]
      else []
  | some _ => []

open Classical in
/-- With a lease, pings to its address are answered. -/
noncomputable def Client.pong (c : Client) : Option Incoming → List Sent
  | none => []
  | some p =>
      match c.lease with
      | none => []
      | some ip =>
          if p.len > 0 ∧ EchoRequest ip p.buf ∧ 24 + hisBodyLen p.buf > 0 then
            [⟨p.sender, readAt (wholeReply ip p.buf) 0 (24 + hisBodyLen p.buf).toNat⟩]
          else []

open Classical in
/-- With a lease, its address is resolved. -/
noncomputable def Client.resolve (c : Client) (mac : Vector UInt8 6) : Option Incoming → List Sent
  | none => []
  | some p =>
      match c.lease with
      | none => []
      | some ip =>
          if ArpRequest ip p.buf p.len then
            [⟨p.sender, ((ArpMessage.ofBuffer p.buf).reply mac ip).toBytes⟩]
          else []

noncomputable def clientStep (mac : Vector UInt8 6) (c : Client) : ClientEvent → Client
  | .poll p => (c.take mac p).wait
  | .linkWentUp => { c with lease := none }
  | .assign ip => c.assign ip
  | .arp _ => c
  | .other => c

noncomputable def clientSends (mac : Vector UInt8 6) (c : Client) : ClientEvent → List Sent
  | .poll p => (c.take mac p).pong p ++ (c.take mac p).request mac
  | .arp p => c.resolve mac p
  | _ => []

/-- What an event of the node is for the client. -/
def Node.clientEvent (n : Node) (e : NodeEvent) : ClientEvent :=
  match e with
  | .updateRxQueues _ => .other
  | .ipv4Poll _ => .poll (n.received e)
  | .arpPoll _ => .arp (n.received e)
  | .linkWentUp => .linkWentUp
  | .cmdIpSet ip => .assign ip
  | .cmdMacSet _ => .other

/-- The variables of the node say what the client is.  With a lease, the register of Etherbone has
its address. -/
structure Represents (ip : IpState) (c : Client) : Prop where
  needIP : ip.needIP = c.lease.isNone
  lease : ∀ a ∈ c.lease, a ≠ noIP ∧ ip.myIP = a ∧ ip.ebIP = ipWord a ∧ c.waited = 0
  bootpTimer : ip.bootpTimer = (c.waited % 100000 : Nat)
  bootpRetry : ip.bootpRetry = i32 ((c.waited + 99999) / 100000 : Nat)

/-! ## One step -/

section Step

variable {ip : IpState} {c : Client}

/-- The counters before the first request. -/
theorem counters_of_waited_eq_zero (hretry : ip.bootpRetry = 0) (htimer : ip.bootpTimer = 0)
    (hc : c.waited = 0) :
    ip.bootpTimer = (c.waited % 100000 : Nat) ∧
      ip.bootpRetry = i32 ((c.waited + 99999) / 100000 : Nat) := by
  have hnone : (c.waited + 99999) / 100000 = 0 := by omega
  refine ⟨by omega, ?_⟩
  rw [hnone, hretry]
  rfl

theorem IpState.Booted.represents (h : ip.Booted) : Represents ip Client.start where
  needIP := h.needIP
  lease := fun _ ha => absurd ha (Option.not_mem_none _)
  bootpTimer := (counters_of_waited_eq_zero h.bootpRetry h.bootpTimer rfl).1
  bootpRetry := (counters_of_waited_eq_zero h.bootpRetry h.bootpTimer rfl).2

theorem Represents.needIP_iff (h : Represents ip c) : ip.needIP = true ↔ c.lease = none := by
  rw [h.needIP, Option.isNone_iff_eq_none]

/-- The address that is given to the node, by a reply or by the shell. -/
theorem Represents.assign (h : Represents ip c) (a : Vector UInt8 4) :
    Represents (setIP ip a) (c.assign a) := by
  unfold Client.assign
  by_cases hzero : a = noIP
  · subst hzero
    rw [if_pos rfl, setIP_noIP]
    exact
      { needIP := rfl
        lease := fun _ ha => absurd ha (Option.not_mem_none _)
        bootpTimer := h.bootpTimer
        bootpRetry := h.bootpRetry }
  · obtain ⟨hretry, htimer⟩ := setIP_counters (s := ip) hzero
    rw [if_neg hzero]
    obtain ⟨htimer, hretry⟩ := counters_of_waited_eq_zero (c := ⟨some a, 0⟩) hretry htimer rfl
    refine ⟨?_, ?_, htimer, hretry⟩
    · rw [setIP_needIP, decide_eq_false hzero]
      rfl
    · intro b hb
      obtain rfl : a = b := Option.some.inj hb
      exact ⟨hzero, setIP_myIP .., setIP_ebIP .., rfl⟩

theorem Represents.linkWentUp (h : Represents ip c) :
    Represents { ip with needIP := true } { c with lease := none } where
  needIP := rfl
  lease := fun _ ha => absurd ha (Option.not_mem_none _)
  bootpTimer := h.bootpTimer
  bootpRetry := h.bootpRetry

/-- The address of a node that holds a lease. -/
theorem Represents.myIP (h : Represents ip c) (hneed : ¬ ip.needIP = true) :
    c.lease = some ip.myIP := by
  obtain ⟨a, ha⟩ := Option.ne_none_iff_exists'.mp (mt h.needIP_iff.mpr hneed)
  rw [(h.lease a ha).2.1, ha]

/-- A received packet: a lease is taken, or a ping is answered. -/
theorem Represents.receive (h : Represents ip c) (mac : Vector UInt8 6) (p : Incoming) :
    Represents (ipv4Receive mac ip p).1 (c.take mac (some p)) ∧
      (ipv4Receive mac ip p).2.2 = (c.take mac (some p)).pong (some p) := by
  unfold ipv4Receive
  by_cases hlen : p.len > 0
  · rw [if_pos hlen]
    have htake : Represents (if ip.needIP then (processBootp mac ip p.buf p.len).2 else ip)
        (c.take mac (some p)) := by
      unfold Client.take
      by_cases hneed : ip.needIP = true
      · rw [if_pos hneed]
        by_cases hreply : BootpReply mac p.buf p.len
        · rw [processBootp_reply hreply]
          simp only [h.needIP_iff.mp hneed, hreply, and_self, if_true]
          exact h.assign _
        · rw [processBootp_other hreply]
          simp only [hreply, and_false, if_false]
          exact h
      · rw [if_neg hneed]
        simp only [mt h.needIP_iff.mpr hneed, false_and, if_false]
        exact h
    generalize (if ip.needIP then (processBootp mac ip p.buf p.len).2 else ip) = ip' at htake ⊢
    generalize c.take mac (some p) = c' at htake ⊢
    by_cases hneed : ip'.needIP = true
    · rw [if_pos hneed]
      refine ⟨htake, ?_⟩
      unfold Client.pong
      rw [htake.needIP_iff.mp hneed]
    · rw [if_neg hneed]
      refine ⟨htake, ?_⟩
      unfold Client.pong sendBack
      rw [htake.myIP hneed]
      by_cases hrequest : EchoRequest ip'.myIP p.buf
      · simp only [processIcmp_request hrequest, hlen, hrequest, true_and]
      · simp only [processIcmp_other hrequest, hrequest, false_and, and_false, if_false,
          gt_iff_lt, lt_self_iff_false]
  · have hshort : ¬ BootpReply mac p.buf p.len := by
      intro hreply
      have hwhole := hreply.whole
      have hend : bootpEnd = 328 := rfl
      omega
    have htake : c.take mac (some p) = c := if_neg fun hreply => hshort hreply.2
    rw [if_neg hlen, htake]
    refine ⟨h, ?_⟩
    unfold Client.pong
    cases c.lease with
    | none => rfl
    | some a => exact (if_neg fun hping => hlen hping.1).symm

/-- The request that is due. -/
theorem ipv4Request_due (hdue : ip.needIP ∧ ip.bootpTimer = 0) (mac : Vector UInt8 6)
    (buf : Nat → UInt8) :
    ipv4Request mac ip buf = ({ ip with bootpRetry := i32 (ip.bootpRetry + 1) },
      [⟨⟨broadcastMac, 0x0800⟩, bootpPacket mac (i32 (ip.bootpRetry + 1))⟩]) := by
  unfold ipv4Request
  rw [if_pos hdue]
  dsimp only
  rw [sendBootp_packet]
  show (_, [(⟨⟨broadcastMac, 0x0800⟩, readAt (writeAt buf 0 _) 0 328⟩ : Sent)]) = _
  rw [readAt_writeAt_of_length buf 0 _ (length_bootpPacket ..)]

/-- The timer of a poll without a lease, after the request that was due. -/
theorem Represents.wait (h : Represents ip c) (hlease : c.lease = none) {retry : Int}
    (hretry : retry = i32 (c.waited / 100000 + 1 : Nat)) :
    Represents (ipv4Timer { ip with bootpRetry := retry }) c.wait := by
  have hneed : ip.needIP = true := h.needIP_iff.mpr hlease
  have hwait : c.wait = { c with waited := c.waited + 1 } := by
    unfold Client.wait
    rw [hlease]
  have htimer := h.bootpTimer
  rw [hwait]
  unfold ipv4Timer
  rw [if_pos hneed]
  refine ⟨h.needIP, fun a ha => absurd (hlease ▸ ha) (Option.not_mem_none _), ?_, ?_⟩
  · show (if ip.bootpTimer + 1 = 100000 then 0 else ip.bootpTimer + 1) =
      ((c.waited + 1) % 100000 : Nat)
    split_ifs <;> omega
  · show retry = i32 ((c.waited + 1 + 99999) / 100000 : Nat)
    have hcount : (c.waited + 1 + 99999) / 100000 = c.waited / 100000 + 1 := by omega
    rw [hcount, hretry]

/-- The request of a poll, and its timer. -/
theorem Represents.request (h : Represents ip c) (mac : Vector UInt8 6) (buf : Nat → UInt8) :
    (ipv4Request mac ip buf).2 = c.request mac ∧
      Represents (ipv4Timer (ipv4Request mac ip buf).1) c.wait := by
  have htimer := h.bootpTimer
  unfold Client.request
  cases hlease : c.lease with
  | some a =>
      have hneed : ¬ ip.needIP = true := by
        rw [h.needIP_iff, hlease]
        exact Option.some_ne_none a
      have hquiet : ipv4Request mac ip buf = (ip, []) := if_neg fun hdue => hneed hdue.1
      have hstop : ipv4Timer ip = ip := if_neg hneed
      have hwait : c.wait = c := by
        unfold Client.wait
        rw [hlease]
      rw [hquiet, hstop, hwait]
      exact ⟨rfl, h⟩
  | none =>
      have hneed : ip.needIP = true := h.needIP_iff.mpr hlease
      by_cases hdue : c.waited % 100000 = 0
      · have hsend : ip.needIP ∧ ip.bootpTimer = 0 := ⟨hneed, by omega⟩
        have hnext : i32 (ip.bootpRetry + 1) = i32 (c.waited / 100000 + 1 : Nat) := by
          have hcount : (c.waited + 99999) / 100000 = c.waited / 100000 := by omega
          rw [h.bootpRetry, hcount, i32_eq_iff]
          exact (i32_modEq _).add_right 1
        rw [ipv4Request_due hsend, hnext]
        dsimp only
        rw [if_pos hdue]
        exact ⟨rfl, h.wait hlease rfl⟩
      · have hkeep : ip.bootpRetry = i32 (c.waited / 100000 + 1 : Nat) := by
          have hcount : (c.waited + 99999) / 100000 = c.waited / 100000 + 1 := by omega
          rw [h.bootpRetry, hcount]
        have hquiet : ipv4Request mac ip buf = (ip, []) := by
          refine if_neg fun hsend => hdue ?_
          have hzero := hsend.2
          omega
        rw [hquiet]
        dsimp only
        rw [if_neg hdue]
        exact ⟨rfl, h.wait hlease hkeep⟩

/-- A poll of the IPv4 socket. -/
theorem Represents.poll (h : Represents ip c) (mac : Vector UInt8 6) (stack : Nat → UInt8)
    (p : Option Incoming) :
    (ipv4Poll mac ip stack p).2 = clientSends mac c (.poll p) ∧
      Represents (ipv4Poll mac ip stack p).1 (clientStep mac c (.poll p)) := by
  cases p with
  | none =>
      obtain ⟨hsent, hnext⟩ := h.request mac stack
      exact ⟨hsent, hnext⟩
  | some p =>
      obtain ⟨htake, hpong⟩ := h.receive mac p
      obtain ⟨hsent, hnext⟩ := htake.request mac (ipv4Receive mac ip p).2.1
      refine ⟨?_, hnext⟩
      show (ipv4Receive mac ip p).2.2 ++ (ipv4Request mac (ipv4Receive mac ip p).1
        (ipv4Receive mac ip p).2.1).2 = _
      rw [hpong, hsent]
      rfl

/-- A poll of the ARP socket. -/
theorem Represents.arp (h : Represents ip c) (mac : Vector UInt8 6) {p : Option Incoming}
    (hp : ip.needIP = true → p = none) :
    arpPoll mac ip p = clientSends mac c (.arp p) := by
  cases p with
  | none => rfl
  | some p =>
      have hneed : ¬ ip.needIP = true := fun hneed => Option.some_ne_none p (hp hneed)
      show (if p.len > 0 then sendBack p.sender (processArp mac ip.myIP p.buf p.len) else []) =
        c.resolve mac (some p)
      unfold Client.resolve
      rw [h.myIP hneed]
      dsimp only
      by_cases hrequest : ArpRequest ip.myIP p.buf p.len
      · have hwhole := hrequest.whole
        rw [arpEnd_eq] at hwhole
        have hlen : p.len > 0 := by omega
        rw [if_pos hlen, if_pos hrequest, processArp_request mac hrequest]
        show [(⟨p.sender, readAt (writeAt p.buf 0 _) 0 28⟩ : Sent)] = _
        rw [readAt_writeAt_of_length p.buf 0 _ (ArpMessage.length_toBytes _)]
      · rw [if_neg hrequest, processArp_other mac hrequest]
        split_ifs <;> rfl

end Step

/-! ## Runs -/

/-- The node and the client at the same events. -/
structure Both where
  node : Node
  client : Client

noncomputable def Both.step (x : Both) (e : NodeEvent) : Both where
  node := nodeStep x.node e
  client := clientStep x.node.mac x.client (x.node.clientEvent e)

/-- The node sends what the client does, and its variables and the register of Etherbone say what
the client is. -/
structure Refines (x : Both) (e : NodeEvent) : Prop where
  sends : sentAt x.node e = clientSends x.node.mac x.client (x.node.clientEvent e)
  represents : Represents x.node.ip x.client

theorem Both.step_represents (x : Both) (e : NodeEvent) (h : Represents x.node.ip x.client) :
    sentAt x.node e = clientSends x.node.mac x.client (x.node.clientEvent e) ∧
      Represents (x.step e).node.ip (x.step e).client := by
  cases e with
  | updateRxQueues frame => exact ⟨rfl, h⟩
  | ipv4Poll stack => exact h.poll x.node.mac stack _
  | arpPoll stack => exact ⟨h.arp x.node.mac fun hneed => if_pos hneed, h⟩
  | linkWentUp => exact ⟨rfl, h.linkWentUp⟩
  | cmdIpSet ip => exact ⟨rfl, h.assign ip⟩
  | cmdMacSet mac => exact ⟨rfl, h⟩

/-- In every run of the node, with any received frames, polls, changes of the link and commands,
it sends exactly what a client with a lease does. -/
theorem node_refines_client (n : Node) (hboot : n.ip.Booted) (es : List NodeEvent) :
    Along Both.step Refines ⟨n, .start⟩ es :=
  along_of_invariant (fun x => Represents x.node.ip x.client)
    (fun x e h => (x.step_represents e h).2)
    (fun x e h => ⟨(x.step_represents e h).1, h⟩) hboot.represents es

/-- A node that was just started, with its two sockets. -/
def wakingNode : Node where
  net := { arpNet with
    socks := fun i =>
      if i = Fin.last 3 then { arpSocket with mac := fun _ => 2, ethertype := 0x0800 }
      else if i = (Fin.last 2).castSucc then arpSocket else clearedSocket }
  mac := #v[2, 2, 2, 2, 2, 2]
  ip := ⟨true, noIP, 0, 0, 0⟩
  ipv4Socket := Fin.last 3
  arpSocket := (Fin.last 2).castSucc

theorem node_refines_client_waking :
    Along Both.step Refines ⟨wakingNode, .start⟩
      [.ipv4Poll fun _ => 0, .cmdIpSet exampleIP, .arpPoll fun _ => 0, .linkWentUp] :=
  node_refines_client wakingNode ⟨rfl, rfl, rfl⟩ _

end Net
end WrpcSw
