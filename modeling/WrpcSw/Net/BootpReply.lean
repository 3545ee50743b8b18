import WrpcSw.Net.Arp

/-!
# The address of the node (`lib/ipv4.c`, `process_bootp`)

The node has its address from a BOOTP reply or from the shell.  The address zero means that there
is none.  `process_bootp` takes every packet of the right length from a BOOTP server for its own
MAC address; it does not look at the operation and the identifier of the message.

* `setIP_needIP`, `setIP_ebIP` — the address, the flag and the register of Etherbone agree.
* `processBootp_exchange` — the answer of a server to a request gives the node that asked its
  address, and no other node; requests are taken by nobody.
-/

namespace WrpcSw
namespace Net

open Memory

/-! ## The address -/

/-- The variables of `ipv4.c`, and the register of Etherbone for the address. -/
structure IpState where
  needIP : Bool
  myIP : Vector UInt8 4
  ebIP : UInt32
  bootpRetry : Int
  bootpTimer : Int

/-- The word that `setIP` makes of an address. -/
def ipWord (ip : Vector UInt8 4) : UInt32 :=
  (ip[0]!.toUInt32 <<< 24) ||| (ip[1]!.toUInt32 <<< 16) ||| (ip[2]!.toUInt32 <<< 8) |||
    ip[3]!.toUInt32

/-- The register is written until it has the value. -/
def setIP (s : IpState) (ip : Vector UInt8 4) : IpState :=
  let s := { s with myIP := ip, ebIP := ipWord ip, needIP := decide (ipWord ip = 0) }
  if !s.needIP then { s with bootpRetry := 0, bootpTimer := 0 } else s

def noIP : Vector UInt8 4 := #v[0, 0, 0, 0]

theorem toNat_ipWord (ip : Vector UInt8 4) : (ipWord ip).toNat =
    16777216 * ip[0]!.toNat + 65536 * ip[1]!.toNat + 256 * ip[2]!.toNat +
      ip[3]!.toNat := by
  have h0 := ip[0]!.toNat_lt
  have h1 := ip[1]!.toNat_lt
  have h2 := ip[2]!.toNat_lt
  have h3 := ip[3]!.toNat_lt
  have hshift : ∀ (b : UInt8) (k : UInt32), k.toNat ≤ 24 →
      (b.toUInt32 <<< k).toNat = b.toNat * 2 ^ k.toNat := by
    intro b k hk
    have hpow : 2 ^ k.toNat ≤ 2 ^ 24 := Nat.pow_le_pow_right (by decide) hk
    have hlt : b.toNat * 2 ^ k.toNat < 2 ^ 32 :=
      Nat.lt_of_lt_of_le (Nat.mul_lt_mul_of_lt_of_le b.toNat_lt hpow (by decide)) (by decide)
    rw [UInt32.toNat_shiftLeft, UInt8.toNat_toUInt32, Nat.mod_eq_of_lt (by omega : k.toNat < 32),
      Nat.shiftLeft_eq, Nat.mod_eq_of_lt hlt]
  have hor : ∀ {x y k : Nat}, y < 2 ^ k → x * 2 ^ k ||| y = x * 2 ^ k + y := by
    intro x y k hy
    rw [← Nat.shiftLeft_eq, Nat.shiftLeft_add_eq_or_of_lt hy]
  unfold ipWord
  rw [UInt32.toNat_or, UInt32.toNat_or, UInt32.toNat_or, hshift _ 24 (by decide),
    hshift _ 16 (by decide), hshift _ 8 (by decide), UInt8.toNat_toUInt32]
  show ip[0]!.toNat * 2 ^ 24 ||| ip[1]!.toNat * 2 ^ 16 ||| ip[2]!.toNat * 2 ^ 8 |||
    ip[3]!.toNat = _
  have hhigh : ip[0]!.toNat * 2 ^ 24 ||| ip[1]!.toNat * 2 ^ 16 =
      (256 * ip[0]!.toNat + ip[1]!.toNat) * 2 ^ 16 := by
    rw [hor (by omega)]
    omega
  have hmiddle : (256 * ip[0]!.toNat + ip[1]!.toNat) * 2 ^ 16 ||| ip[2]!.toNat * 2 ^ 8 =
      (256 * (256 * ip[0]!.toNat + ip[1]!.toNat) + ip[2]!.toNat) * 2 ^ 8 := by
    rw [hor (by omega)]
    omega
  rw [hhigh, hmiddle, hor (by omega)]
  omega

/-- The word of an address is zero for the address zero only. -/
theorem ipWord_eq_zero {ip : Vector UInt8 4} : ipWord ip = 0 ↔ ip = noIP := by
  constructor
  · intro hword
    have hvalue := toNat_ipWord ip
    rw [hword, UInt32.toNat_zero] at hvalue
    have hzero : ∀ i : Fin 4, ip[i].toNat = 0 := by
      intro i
      match i with
      | 0 => show ip[0]!.toNat = 0; omega
      | 1 => show ip[1]!.toNat = 0; omega
      | 2 => show ip[2]!.toNat = 0; omega
      | 3 => show ip[3]!.toNat = 0; omega
    apply Vector.ext
    intro i hi
    have hbyte : ip[i] = 0 := UInt8.toNat_inj.mp (hzero ⟨i, hi⟩)
    rw [hbyte]
    match i, hi with
    | 0, _ => rfl
    | 1, _ => rfl
    | 2, _ => rfl
    | 3, _ => rfl
  · rintro rfl
    rfl

section SetIP

variable (s : IpState) (ip : Vector UInt8 4)

@[simp] theorem setIP_needIP : (setIP s ip).needIP = decide (ip = noIP) := by
  have hneed : decide (ipWord ip = 0) = decide (ip = noIP) := decide_eq_decide.mpr ipWord_eq_zero
  unfold setIP
  dsimp only
  split_ifs <;> exact hneed

@[simp] theorem setIP_myIP : (setIP s ip).myIP = ip := by
  unfold setIP
  dsimp only
  split_ifs <;> rfl

@[simp] theorem setIP_ebIP : (setIP s ip).ebIP = ipWord ip := by
  unfold setIP
  dsimp only
  split_ifs <;> rfl

variable {s ip}

/-- An address ends the requests; the next ones are counted from the beginning. -/
theorem setIP_counters (h : ip ≠ noIP) :
    (setIP s ip).bootpRetry = 0 ∧ (setIP s ip).bootpTimer = 0 := by
  have hword : ¬ ipWord ip = 0 := mt ipWord_eq_zero.mp h
  unfold setIP
  dsimp only
  rw [decide_eq_false hword]
  exact ⟨rfl, rfl⟩

theorem setIP_noIP : setIP s noIP = { s with myIP := noIP, ebIP := 0, needIP := true } := rfl

end SetIP

/-! ## Replies -/

/-- Take the reply in `buf`, of which `len` bytes were received. -/
def processBootp (mac : Vector UInt8 6) (s : IpState) (buf : Nat → UInt8) (len : Int) :
    Int × IpState :=
  if len ≠ bootpEnd then (0, s)
  else if buf ipVersion ≠ 0x45 then (0, s)
  else if buf ipProtocol ≠ 17 ∨ buf udpDport ≠ 0 ∨ buf (udpDport + 1) ≠ 68 ∨
      buf udpSport ≠ 0 ∨ buf (udpSport + 1) ≠ 67 then (0, s)
  else if readAt buf bootpChaddr 6 ≠ mac.toList then (0, s)
  else (1, setIP s (vectorAt buf bootpYiaddr 4))

/-- The packet is one from a BOOTP server, for this node. -/
structure BootpReply (mac : Vector UInt8 6) (buf : Nat → UInt8) (len : Int) : Prop where
  whole : len = bootpEnd
  version : buf ipVersion = 0x45
  protocol : buf ipProtocol = 17
  dport : buf udpDport = 0 ∧ buf (udpDport + 1) = 68
  sport : buf udpSport = 0 ∧ buf (udpSport + 1) = 67
  chaddr : readAt buf bootpChaddr 6 = mac.toList

section Process

variable {mac : Vector UInt8 6} {buf : Nat → UInt8} {len : Int}

theorem processBootp_reply (h : BootpReply mac buf len) (s : IpState) :
    processBootp mac s buf len = (1, setIP s (vectorAt buf bootpYiaddr 4)) := by
  have hports : ¬ (buf ipProtocol ≠ 17 ∨ buf udpDport ≠ 0 ∨ buf (udpDport + 1) ≠ 68 ∨
      buf udpSport ≠ 0 ∨ buf (udpSport + 1) ≠ 67) := by
    rintro (hprotocol | hdport | hdport | hsport | hsport)
    · exact hprotocol h.protocol
    · exact hdport h.dport.1
    · exact hdport h.dport.2
    · exact hsport h.sport.1
    · exact hsport h.sport.2
  unfold processBootp
  rw [if_neg (not_not.mpr h.whole), if_neg (not_not.mpr h.version), if_neg hports,
    if_neg (not_not.mpr h.chaddr)]

theorem processBootp_other (h : ¬ BootpReply mac buf len) (s : IpState) :
    processBootp mac s buf len = (0, s) := by
  unfold processBootp
  split_ifs with hwhole hversion hports hchaddr
  · rfl
  · rfl
  · rfl
  · rfl
  · push Not at hwhole hversion hports hchaddr
    obtain ⟨hprotocol, hdport, hdport', hsport, hsport'⟩ := hports
    exact absurd ⟨hwhole, hversion, hprotocol, ⟨hdport, hdport'⟩, ⟨hsport, hsport'⟩, hchaddr⟩ h

end Process

/-! ## The exchange with a server -/

/-- The packet in `buf` is the answer of a server to a request: it goes from the port of the
server to the port of the client, has the hardware address of the request, and assigns `ip`.  What
else is in it does not matter. -/
structure AnswersBootp (request : List UInt8) (ip : Vector UInt8 4) (buf : Nat → UInt8)
    (len : Int) : Prop where
  whole : len = bootpEnd
  version : buf ipVersion = 0x45
  protocol : buf ipProtocol = 17
  dport : buf udpDport = 0 ∧ buf (udpDport + 1) = 68
  sport : buf udpSport = 0 ∧ buf (udpSport + 1) = 67
  chaddr : readAt buf bootpChaddr 16 = (request.drop bootpChaddr).take 16
  yiaddr : HoldsAt buf bootpYiaddr ip.toList

/-- The hardware address of a request. -/
theorem bootpPacket_chaddr (mac : Vector UInt8 6) (retry : Int) :
    ((bootpPacket mac retry).drop bootpChaddr).take 6 = mac.toList := by
  have hsplit : bootpPacket mac retry =
      (bootpIp bootpIpSum ++ bootpUdp (bootpUdpSum mac retry) ++
        ((bootpMessage mac retry).take 28)) ++ (mac.toList ++ List.replicate 266 0) := by
    have hmessage : (bootpMessage mac retry).drop 28 = mac.toList ++ List.replicate 266 0 := rfl
    rw [← hmessage, List.append_assoc, List.take_append_drop]
    rfl
  have hlength : (bootpIp bootpIpSum ++ bootpUdp (bootpUdpSum mac retry) ++
      ((bootpMessage mac retry).take 28)).length = bootpChaddr := by
    simp [bootpIp, bootpUdp]
    rfl
  rw [hsplit, ← hlength, List.drop_left, List.take_left' (Vector.length_toList ..)]

theorem AnswersBootp.chaddr_eq {mac : Vector UInt8 6} {retry : Int} {ip : Vector UInt8 4}
    {buf : Nat → UInt8} {len : Int} (h : AnswersBootp (bootpPacket mac retry) ip buf len) :
    readAt buf bootpChaddr 6 = mac.toList := by
  have hshort : readAt buf bootpChaddr 6 = (readAt buf bootpChaddr 16).take 6 := rfl
  rw [hshort, h.chaddr, List.take_take, Nat.min_eq_left (by decide), bootpPacket_chaddr]

/-- A request is no reply, whoever receives it. -/
theorem not_bootpReply_packet {mac : Vector UInt8 6} {retry : Int} {buf : Nat → UInt8}
    (h : HoldsAt buf 0 (bootpPacket mac retry)) (mac' : Vector UInt8 6) (len : Int) :
    ¬ BootpReply mac' buf len := by
  intro hreply
  have hudp := (packet_parts h).2.split.1
  have hport : buf (udpDport + 1) = 67 := hudp.getElem (i := 3) (by simp [bootpUdp])
  rw [hreply.dport.2] at hport
  exact absurd hport (by decide)

/-- The answer of a server to a request gives the node that asked its address; a node with another
MAC address ignores it, and every node ignores the request. -/
theorem processBootp_exchange (mac : Vector UInt8 6) (retry : Int) (stack : Nat → UInt8) :
    let request := readAt (sendBootp mac stack retry).2 0 328
    (∀ s ip buf len, AnswersBootp request ip buf len →
      processBootp mac s buf len = (1, setIP s ip) ∧ (setIP s ip).myIP = ip ∧
        (setIP s ip).needIP = decide (ip = noIP) ∧ (setIP s ip).ebIP = ipWord ip) ∧
      (∀ mac' s ip buf len, mac' ≠ mac → AnswersBootp request ip buf len →
        processBootp mac' s buf len = (0, s)) ∧
      ∀ mac' s buf len, HoldsAt buf 0 request → processBootp mac' s buf len = (0, s) := by
  intro request
  have hrequest : request = bootpPacket mac retry := by
    show readAt (sendBootp mac stack retry).2 0 328 = _
    rw [sendBootp_packet, ← length_bootpPacket mac retry]
    exact readAt_writeAt stack 0 _
  rw [hrequest]
  refine ⟨fun s ip buf len h => ?_, fun mac' s ip buf len hne h => ?_, fun mac' s buf len h => ?_⟩
  · have hreply : BootpReply mac buf len :=
      ⟨h.whole, h.version, h.protocol, h.dport, h.sport, h.chaddr_eq⟩
    rw [processBootp_reply hreply, vectorAt_eq h.yiaddr]
    exact ⟨rfl, setIP_myIP s ip, setIP_needIP s ip, setIP_ebIP s ip⟩
  · refine processBootp_other (fun hreply => hne ?_) s
    exact Vector.toList_inj.mp (hreply.chaddr.symm.trans h.chaddr_eq)
  · exact processBootp_other (not_bootpReply_packet h mac' len) s

end Net
end WrpcSw
