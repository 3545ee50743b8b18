import WrpcSw.Net.Wire

/-!
# A network of IP nodes

Any number of nodes share a wire.  What one of them sends may reach any node, at any time, as often
as it will and in any order; other stations may send, too.

* `Network`, `Network.step` — the nodes, and what they have sent so far.
* `network_answers_strangers` — in every run, nodes answer only what no node has sent.
* `network_stays_quiet` — in every run without other stations, all there is are the requests for an
  address that the nodes make by themselves, and no node gets its address from the wire.
-/

namespace WrpcSw
namespace Net

open Memory Run
open Minic (padded)

variable {ι : Type*} [DecidableEq ι]

/-- The nodes, and the packets they have sent. -/
structure Network (ι : Type*) where
  nodes : ι → Node
  sent : List Sent

/-- An event of one of the nodes. -/
def Network.step (x : Network ι) (e : ι × NodeEvent) : Network ι where
  nodes := Function.update x.nodes e.1 (nodeStep (x.nodes e.1) e.2)
  sent := x.sent ++ sentAt (x.nodes e.1) e.2

def Network.start (nodes : ι → Node) : Network ι := ⟨nodes, []⟩

/-- The packet is a request of the node for an address. -/
def Requests (n : Node) (s : Sent) : Prop :=
  ∃ retry, s = ⟨⟨broadcastMac, 0x0800⟩, bootpPacket n.mac retry⟩

/-- The address of the node stays as it is. -/
def KeepsAddress (n : Node) (e : NodeEvent) : Prop :=
  (nodeStep n e).ip.myIP = n.ip.myIP ∧ (nodeStep n e).ip.needIP = n.ip.needIP

/-! ## Polls -/

section Poll

variable {n : Node}

/-- The last two parts of a poll leave the address alone. -/
theorem ipv4Timer_request_address (mac : Vector UInt8 6) (ip : IpState) (buf : Nat → UInt8) :
    (ipv4Timer (ipv4Request mac ip buf).1).myIP = ip.myIP ∧
      (ipv4Timer (ipv4Request mac ip buf).1).needIP = ip.needIP := by
  have hrequest : (ipv4Request mac ip buf).1.myIP = ip.myIP ∧
      (ipv4Request mac ip buf).1.needIP = ip.needIP := by
    unfold ipv4Request
    split_ifs <;> exact ⟨rfl, rfl⟩
  unfold ipv4Timer
  split_ifs
  · exact hrequest
  · exact hrequest

/-- A poll that receives nothing, or what it ignores: a request, if one is due. -/
theorem poll_ignored {e : NodeEvent} (h : ∀ p ∈ n.received e, Ignored p)
    (hset : ∀ ip, e ≠ .cmdIpSet ip) (hlink : e ≠ .linkWentUp) :
    (∀ s ∈ sentAt n e, Requests n s) ∧ KeepsAddress n e := by
  unfold sentAt KeepsAddress nodeStep Node.act
  cases e with
  | updateRxQueues frame => exact ⟨fun s hs => absurd hs (List.not_mem_nil), rfl, rfl⟩
  | ipv4Poll stack =>
      have hreceive : ∃ buf, ipv4Poll n.mac n.ip stack (n.received (.ipv4Poll stack)) =
          (ipv4Timer (ipv4Request n.mac n.ip buf).1, (ipv4Request n.mac n.ip buf).2) := by
        cases hp : n.received (.ipv4Poll stack) with
        | none => exact ⟨stack, rfl⟩
        | some p =>
            refine ⟨p.buf, ?_⟩
            unfold ipv4Poll
            dsimp only
            rw [(h p hp).ipv4Receive]
            rfl
      obtain ⟨buf, hpoll⟩ := hreceive
      dsimp only
      rw [hpoll]
      exact ⟨fun s hs => ipv4Request_sends hs, ipv4Timer_request_address n.mac n.ip buf⟩
  | arpPoll stack =>
      refine ⟨fun s hs => ?_, rfl, rfl⟩
      dsimp only at hs
      cases hp : n.received (.arpPoll stack) with
      | none =>
          rw [hp] at hs
          exact absurd hs (List.not_mem_nil)
      | some p =>
          rw [hp, (h p hp).arpPoll] at hs
          exact absurd hs (List.not_mem_nil)
  | linkWentUp => exact absurd rfl hlink
  | cmdIpSet ip => exact absurd rfl (hset ip)
  | cmdMacSet mac => exact ⟨fun s hs => absurd hs (List.not_mem_nil), rfl, rfl⟩

end Poll

/-! ## A network with other stations -/

/-- What a poll of a node does with a packet that a node has sent: nothing. -/
def AnswersStrangers (x : Network ι) (e : ι × NodeEvent) : Prop :=
  ∀ p ∈ (x.nodes e.1).received e.2, (∃ s ∈ x.sent, p.Carries s) →
    (∀ t ∈ sentAt (x.nodes e.1) e.2, Requests (x.nodes e.1) t) ∧ KeepsAddress (x.nodes e.1) e.2

/-- In every run, whatever the nodes receive from each other and from other stations, a node that
polls a packet of a node sends no answer and takes no address from it. -/
theorem network_answers_strangers (nodes : ι → Node) (es : List (ι × NodeEvent)) :
    Along Network.step AnswersStrangers (.start nodes) es := by
  refine along_of_invariant (fun x : Network ι => ∀ s ∈ x.sent, NodePacket s) ?_ ?_ ?_ es
  · intro x e hsent s hs
    rcases List.mem_append.mp hs with hold | hnew
    · exact hsent s hold
    · exact nodePacket_of_sent hnew
  · rintro x ⟨i, e⟩ hsent p hp ⟨s, hs, hcarries⟩
    have hignored : ∀ q ∈ (x.nodes i).received e, Ignored q := by
      intro q hq
      obtain rfl : p = q := Option.some.inj (hp.symm.trans hq)
      exact (hsent s hs).ignored hcarries
    refine poll_ignored hignored ?_ ?_
    · rintro ip rfl
      exact absurd hp (Option.not_mem_none p)
    · rintro rfl
      exact absurd hp (Option.not_mem_none p)
  · exact fun s hs => absurd hs (List.not_mem_nil)

/-! ## A network without other stations -/

/-- What a node receives has been sent by one of the nodes. -/
def Heard (x : Network ι) (e : ι × NodeEvent) : Prop :=
  ∀ frame, e.2 = .updateRxQueues (some frame) → ∃ s ∈ x.sent, frame.Carries s

/-- All that is sent are requests, and only the shell and the link change the address. -/
structure Quiet (x : Network ι) (e : ι × NodeEvent) : Prop where
  sends : ∀ s ∈ sentAt (x.nodes e.1) e.2, Requests (x.nodes e.1) s
  keeps : (∀ ip, e.2 ≠ .cmdIpSet ip) → e.2 ≠ .linkWentUp → KeepsAddress (x.nodes e.1) e.2

/-- The sockets as `ipv4_init` and `arp_init` open them. -/
structure Node.Opened (n : Node) : Prop where
  ipv4_type : (n.net.socks n.ipv4Socket).ethertype = 0x0800
  ipv4_queue : (n.net.socks n.ipv4Socket).queue.Holds []
  arp_type : (n.net.socks n.arpSocket).ethertype = 0x0806
  arp_queue : (n.net.socks n.arpSocket).queue.Holds []

/-- The packet was stored for a frame with a request. -/
def StoredRequest (p : Packet) : Prop :=
  ∃ frame : RxFrame, frame.StoredAs p ∧ ∃ mac retry, frame.body = bootpPacket mac retry

/-- A node that has received requests only. -/
structure Node.Idle (n : Node) : Prop where
  ipv4_type : (n.net.socks n.ipv4Socket).ethertype = 0x0800
  arp_type : (n.net.socks n.arpSocket).ethertype = 0x0806
  ipv4_queue : ∃ ps, (n.net.socks n.ipv4Socket).queue.Holds ps ∧ ∀ p ∈ ps, StoredRequest p
  arp_queue : (n.net.socks n.arpSocket).queue.Holds []

theorem Node.Opened.idle {n : Node} (h : n.Opened) : n.Idle where
  ipv4_type := h.ipv4_type
  arp_type := h.arp_type
  ipv4_queue := ⟨[], h.ipv4_queue, fun _ hp => absurd hp (List.not_mem_nil)⟩
  arp_queue := h.arp_queue

section Sockets

variable {net : NetState}

/-- The sockets keep their ethertypes. -/
theorem netStep_ethertype (net : NetState) (e : NetEvent) (i : Fin NET_MAX_SOCKETS) :
    ((netStep net e).socks i).ethertype = (net.socks i).ethertype := by
  rcases e with (_ | frame) | ⟨sock, dataLength, ptracker⟩
  · rfl
  · show ((updateRxQueues net (some frame)).socks i).ethertype = _
    by_cases hdropped : ∀ j, ¬ QueuedOn net frame j
    · rw [updateRxQueues_dropped hdropped]
    · push Not at hdropped
      obtain ⟨j, hj⟩ := hdropped
      rw [updateRxQueues_queued hj]
      rcases eq_or_ne i j with rfl | hij
      · rw [Function.update_self]
      · rw [Function.update_of_ne hij]
  · show (Function.update net.socks sock _ i).ethertype = _
    rcases eq_or_ne i sock with rfl | hij
    · rw [Function.update_self]
      unfold ptpdNetifRecvfrom
      split_ifs <;> rfl
    · rw [Function.update_of_ne hij]

theorem nodeStep_ethertype (n : Node) (e : NodeEvent) (i : Fin NET_MAX_SOCKETS) :
    ((nodeStep n e).net.socks i).ethertype = (n.net.socks i).ethertype :=
  run_invariant (fun net : NetState => (net.socks i).ethertype = (n.net.socks i).ethertype)
    (fun net e h => (netStep_ethertype net e i).trans h) rfl (n.netEvents e)

/-- An empty queue stays empty for a frame of another ethertype. -/
theorem updateRxQueues_type {frame : RxFrame} {i : Fin NET_MAX_SOCKETS}
    (h : frame.hdr.ethtype ≠ (net.socks i).ethertype) :
    ((updateRxQueues net (some frame)).socks i).queue = (net.socks i).queue := by
  refine updateRxQueues_other fun hqueued => h ?_
  have haccepts := hqueued.1
  unfold MySocket.accepts at haccepts
  rw [Bool.and_eq_true, decide_eq_true_eq] at haccepts
  exact haccepts.2

/-- A receive call leaves the other sockets alone. -/
theorem netStep_recvfrom_other {i sock : Fin NET_MAX_SOCKETS} (h : i ≠ sock) (dataLength : Nat)
    (ptracker : Option Int) :
    (netStep net (.recvfrom sock dataLength ptracker)).socks i = net.socks i :=
  Function.update_of_ne h ..

theorem netStep_recvfrom_empty {sock : Fin NET_MAX_SOCKETS} (h : (net.socks sock).queue.Holds [])
    (dataLength : Nat) (ptracker : Option Int) :
    (netStep net (.recvfrom sock dataLength ptracker)).socks = net.socks := by
  show Function.update net.socks sock (ptpdNetifRecvfrom (net.socks sock) dataLength ptracker).2 = _
  rw [recvfrom_empty h]
  exact Function.update_eq_self sock net.socks

end Sockets

/-- The body of a request that was heard is the packet. -/
theorem RxFrame.Carries.request {frame : RxFrame} {mac : Vector UInt8 6} {retry : Int}
    (h : frame.Carries ⟨⟨broadcastMac, 0x0800⟩, bootpPacket mac retry⟩) :
    frame.body = bootpPacket mac retry := by
  obtain ⟨-, -, k, hbody, hlength⟩ := h.parts
  rw [hbody, List.length_append, List.length_replicate, length_bootpPacket] at hlength
  have hnone : k = 0 := by omega
  rw [hbody, hnone, List.replicate_zero, List.append_nil]

theorem StoredRequest.size {p : Packet} (h : StoredRequest p) : p.size = 342 := by
  obtain ⟨frame, ⟨-, -, hsize, -⟩, mac, retry, hbody⟩ := h
  rw [hsize, RxFrame.recvd, hbody, length_bootpPacket]
  rfl

/-- What a poll sees of a stored request. -/
theorem StoredRequest.ignored {p : Packet} (h : StoredRequest p) (stack : Nat → UInt8)
    (phaseTransition : Int) :
    Ignored (incoming stack (p.result ipv4BufSize none phaseTransition)) := by
  have hsize := h.size
  obtain ⟨frame, ⟨-, -, -, hstored⟩, mac, retry, hbody⟩ := h
  rw [hbody, length_bootpPacket] at hstored
  have hall : p.payload.take ipv4BufSize = p.payload :=
    List.take_of_length_le (show p.size ≤ 400 by omega)
  have hsplit : p.payload = bootpPacket mac retry ++ p.payload.drop 328 := by
    conv_lhs => rw [← List.take_append_drop 328 p.payload, hstored]
  have hdata : HoldsAt (incoming stack (p.result ipv4BufSize none phaseTransition)).buf 0
      (bootpPacket mac retry ++ p.payload.drop 328) := by
    show HoldsAt (writeAt stack 0 (p.payload.take ipv4BufSize)) 0 _
    rw [hall, ← hsplit]
    exact HoldsAt.written
  exact ignored_request hdata.split.1

namespace Node.Idle

variable {n : Node}

theorem ne (h : n.Idle) : n.arpSocket ≠ n.ipv4Socket := by
  intro heq
  have htype := h.arp_type
  rw [heq, h.ipv4_type] at htype
  exact absurd htype (by decide)

/-- The polls of such a node receive requests only. -/
theorem received (h : n.Idle) (e : NodeEvent) : ∀ p ∈ n.received e, Ignored p := by
  intro p hp
  cases e with
  | ipv4Poll stack =>
      obtain ⟨ps, hholds, hstored⟩ := h.ipv4_queue
      unfold Node.received at hp
      cases ps with
      | nil =>
          rw [recvfrom_empty hholds] at hp
          exact absurd hp (Option.not_mem_none p)
      | cons q ps =>
          rw [(recvfrom_spec hholds ipv4BufSize none).1] at hp
          obtain rfl := Option.some.inj hp
          exact (hstored q (List.mem_cons_self ..)).ignored stack _
  | arpPoll stack =>
      unfold Node.received at hp
      dsimp only at hp
      rw [recvfrom_empty h.arp_queue] at hp
      split_ifs at hp <;> exact absurd hp (Option.not_mem_none p)
  | updateRxQueues frame => exact absurd hp (Option.not_mem_none p)
  | linkWentUp => exact absurd hp (Option.not_mem_none p)
  | cmdIpSet ip => exact absurd hp (Option.not_mem_none p)
  | cmdMacSet mac => exact absurd hp (Option.not_mem_none p)

/-- A node with the same sockets. -/
theorem congr (h : n.Idle) {n' : Node} (hnet : n'.net.socks = n.net.socks)
    (hipv4 : n'.ipv4Socket = n.ipv4Socket) (harp : n'.arpSocket = n.arpSocket) : n'.Idle := by
  constructor
  · rw [hnet, hipv4]
    exact h.ipv4_type
  · rw [hnet, harp]
    exact h.arp_type
  · rw [hnet, hipv4]
    exact h.ipv4_queue
  · rw [hnet, harp]
    exact h.arp_queue

/-- A request arrives. -/
theorem heard (h : n.Idle) {frame : RxFrame} {mac : Vector UInt8 6} {retry : Int}
    (hframe : frame.Carries ⟨⟨broadcastMac, 0x0800⟩, bootpPacket mac retry⟩) :
    (nodeStep n (.updateRxQueues (some frame))).Idle := by
  have htype : frame.hdr.ethtype = 0x0800 := hframe.parts.1
  constructor
  · exact (nodeStep_ethertype n _ n.ipv4Socket).trans h.ipv4_type
  · exact (nodeStep_ethertype n _ n.arpSocket).trans h.arp_type
  · obtain ⟨ps, hholds, hstored⟩ := h.ipv4_queue
    by_cases hqueued : QueuedOn n.net frame n.ipv4Socket
    · refine ⟨_, updateRxQueues_holds hqueued hholds, fun p hp => ?_⟩
      rcases List.mem_append.mp hp with hold | hnew
      · exact hstored p hold
      · rw [List.mem_singleton.mp hnew]
        exact ⟨frame, frame.storedAs_packet n.net, mac, retry, hframe.request⟩
    · refine ⟨ps, ?_, hstored⟩
      show ((updateRxQueues n.net (some frame)).socks n.ipv4Socket).queue.Holds ps
      rw [updateRxQueues_other hqueued]
      exact hholds
  · show ((updateRxQueues n.net (some frame)).socks n.arpSocket).queue.Holds []
    rw [updateRxQueues_type (by rw [htype, h.arp_type]; decide)]
    exact h.arp_queue

/-- A poll of the IPv4 socket takes a request, if there is one. -/
theorem polled (h : n.Idle) (stack : Nat → UInt8) : (nodeStep n (.ipv4Poll stack)).Idle := by
  obtain ⟨ps, hholds, hstored⟩ := h.ipv4_queue
  constructor
  · exact (nodeStep_ethertype n _ n.ipv4Socket).trans h.ipv4_type
  · exact (nodeStep_ethertype n _ n.arpSocket).trans h.arp_type
  · cases ps with
    | nil =>
        refine ⟨[], ?_, hstored⟩
        show ((netStep n.net (.recvfrom n.ipv4Socket ipv4BufSize none)).socks
          n.ipv4Socket).queue.Holds []
        rw [netStep_recvfrom_empty hholds]
        exact hholds
    | cons p ps =>
        refine ⟨ps, ?_, fun q hq => hstored q (List.mem_cons_of_mem _ hq)⟩
        have hfits : p.size ≤ ipv4BufSize := by
          rw [(hstored p (List.mem_cons_self ..)).size]
          decide
        show (Function.update n.net.socks n.ipv4Socket _ n.ipv4Socket).queue.Holds ps
        rw [Function.update_self]
        exact recvfrom_framed hholds hfits none
  · show ((netStep n.net (.recvfrom n.ipv4Socket ipv4BufSize none)).socks
      n.arpSocket).queue.Holds []
    rw [netStep_recvfrom_other h.ne]
    exact h.arp_queue

/-- What any event leaves, if the frames that arrive are requests. -/
theorem step (h : n.Idle) (e : NodeEvent)
    (hheard : ∀ frame, e = .updateRxQueues (some frame) →
      ∃ mac retry, frame.Carries ⟨⟨broadcastMac, 0x0800⟩, bootpPacket mac retry⟩) :
    (nodeStep n e).Idle := by
  cases e with
  | updateRxQueues frame =>
      cases frame with
      | none => exact h.congr rfl rfl rfl
      | some frame =>
          obtain ⟨mac, retry, hcarries⟩ := hheard frame rfl
          exact h.heard hcarries
  | ipv4Poll stack => exact h.polled stack
  | arpPoll stack =>
      refine h.congr ?_ rfl rfl
      show (run netStep n.net (if n.ip.needIP then [] else [_])).socks = n.net.socks
      split_ifs
      · rfl
      · exact netStep_recvfrom_empty h.arp_queue _ _
  | linkWentUp => exact h.congr rfl rfl rfl
  | cmdIpSet ip => exact h.congr rfl rfl rfl
  | cmdMacSet mac => exact h.congr rfl rfl rfl

end Node.Idle

/-- All nodes are idle, and all that was sent are requests. -/
structure Network.Idle (x : Network ι) : Prop where
  nodes : ∀ i, (x.nodes i).Idle
  sent : ∀ s ∈ x.sent, ∃ mac retry, s = ⟨⟨broadcastMac, 0x0800⟩, bootpPacket mac retry⟩

/-- A step of an idle node sends requests only. -/
theorem Node.Idle.sends {n : Node} (h : n.Idle) (e : NodeEvent) :
    ∀ s ∈ sentAt n e, Requests n s := by
  by_cases hset : ∃ ip, e = .cmdIpSet ip
  · obtain ⟨ip, rfl⟩ := hset
    exact fun s hs => absurd hs (List.not_mem_nil)
  · by_cases hlink : e = .linkWentUp
    · subst hlink
      exact fun s hs => absurd hs (List.not_mem_nil)
    · exact (poll_ignored (h.received e) (fun ip he => hset ⟨ip, he⟩) hlink).1

theorem Network.Idle.step {x : Network ι} (h : x.Idle) {e : ι × NodeEvent} (hheard : Heard x e) :
    (x.step e).Idle := by
  constructor
  · intro i
    show (Function.update x.nodes e.1 (nodeStep (x.nodes e.1) e.2) i).Idle
    rcases eq_or_ne i e.1 with rfl | hother
    · rw [Function.update_self]
      refine (h.nodes e.1).step e.2 fun frame he => ?_
      obtain ⟨s, hs, hcarries⟩ := hheard frame he
      obtain ⟨mac, retry, rfl⟩ := h.sent s hs
      exact ⟨mac, retry, hcarries⟩
    · rw [Function.update_of_ne hother]
      exact h.nodes i
  · intro s hs
    rcases List.mem_append.mp hs with hold | hnew
    · exact h.sent s hold
    · obtain ⟨retry, rfl⟩ := (h.nodes e.1).sends e.2 s hnew
      exact ⟨_, retry, rfl⟩

/-- Nodes that have only each other: whatever is lost, repeated or reordered on the wire, all they
ever send are the requests for an address that they make by themselves, and an address changes only
by the shell or with the link. -/
theorem network_stays_quiet (nodes : ι → Node) (hopened : ∀ i, (nodes i).Opened)
    (es : List (ι × NodeEvent)) (hheard : Along Network.step Heard (.start nodes) es) :
    Along Network.step Quiet (.start nodes) es := by
  refine along_of_along Network.Idle (fun x e h he => h.step he) (fun x e h _ => ?_) ?_ hheard
  · exact ⟨(h.nodes e.1).sends e.2,
      fun hset hlink => (poll_ignored ((h.nodes e.1).received e.2) hset hlink).2⟩
  · exact ⟨fun i => (hopened i).idle, fun s hs => absurd hs (List.not_mem_nil)⟩

theorem wakingNode_opened : wakingNode.Opened where
  ipv4_type := rfl
  ipv4_queue := Sockq.holds_nil rfl rfl rfl rfl
  arp_type := rfl
  arp_queue := Sockq.holds_nil rfl rfl rfl rfl

theorem sentAt_wakingNode (stack : Nat → UInt8) :
    sentAt wakingNode (.ipv4Poll stack) =
      [⟨⟨broadcastMac, 0x0800⟩, bootpPacket wakingNode.mac 1⟩] := by
  have hreceived : wakingNode.received (.ipv4Poll stack) = none := by
    unfold Node.received
    dsimp only
    rw [recvfrom_empty wakingNode_opened.ipv4_queue]
    rfl
  show (ipv4Poll wakingNode.mac wakingNode.ip stack (wakingNode.received (.ipv4Poll stack))).2 = _
  rw [hreceived]
  show (ipv4Request wakingNode.mac wakingNode.ip stack).2 = _
  rw [ipv4Request_due ⟨rfl, rfl⟩]
  rfl

/-- The frame with its first request. -/
def requestFrame : RxFrame where
  hdr := sendHdr (fun _ => 2) ⟨broadcastMac, 0x0800⟩
  hwts := ⟨1, 0, 0, 0, 0⟩
  body := bootpPacket wakingNode.mac 1
  fits := by
    rw [length_bootpPacket]
    decide

theorem requestFrame_carries :
    requestFrame.Carries ⟨⟨broadcastMac, 0x0800⟩, bootpPacket wakingNode.mac 1⟩ := by
  refine ⟨fun _ => 2, ?_⟩
  have hlength : ((sendHdr (fun _ => 2) ⟨broadcastMac, 0x0800⟩).toBytes ++
      bootpPacket wakingNode.mac 1).length = 342 := by
    rw [List.length_append, EthHdr.length_toBytes, length_bootpPacket]
  unfold padded
  rw [hlength]
  exact ((List.append_nil _).trans (List.append_nil _)).symm

/-- A request that another node hears. -/
theorem network_stays_quiet_two :
    Along Network.step Quiet (.start fun _ : Fin 2 => wakingNode)
      [(0, .ipv4Poll fun _ => 0), (1, .updateRxQueues (some requestFrame)),
        (1, .ipv4Poll fun _ => 0)] := by
  refine network_stays_quiet _ (fun _ => wakingNode_opened) _ ⟨?_, ?_, ?_, trivial⟩
  · exact fun frame he => absurd he (by simp)
  · intro frame he
    obtain rfl : requestFrame = frame := by simpa using he
    refine ⟨_, ?_, requestFrame_carries⟩
    show _ ∈ [] ++ sentAt wakingNode (.ipv4Poll fun _ => 0)
    rw [sentAt_wakingNode]
    exact List.mem_singleton.mpr rfl
  · exact fun frame he => absurd he (by simp)

end Net
end WrpcSw
