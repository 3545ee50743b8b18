import WrpcSw.Net.Ipv4

/-!
# BOOTP requests (`lib/bootp.c`)

`send_bootp` fills a packet buffer from the back: first the BOOTP message, then a UDP
header behind the pseudo-header of its checksum, which lies where the end of the IP
header will be, and at last the IP header over it.

* `bootpFields_eq` — the message is written as one block.
* `sendBootp_packet` — what is in the buffer at the end, as a function of the MAC
  address and the retry count.
* `sendBootp_valid` — the packet is determined by these two, and both checksums are
  valid.
-/

namespace WrpcSw
namespace Net

open Memory OnesComplement

/-! ## Offsets -/

def udpVirtSaddr : Nat := ipEnd - 12
def udpVirtDaddr : Nat := udpVirtSaddr + 4
def udpVirtZeros : Nat := udpVirtDaddr + 4
def udpVirtProto : Nat := udpVirtZeros + 1
def udpVirtLength : Nat := udpVirtProto + 1

def udpSport : Nat := ipEnd
def udpDport : Nat := udpSport + 2
def udpLength : Nat := udpDport + 2
def udpChecksum : Nat := udpLength + 2
def udpEnd : Nat := udpChecksum + 2

def bootpOp : Nat := udpEnd
def bootpHtype : Nat := bootpOp + 1
def bootpHlen : Nat := bootpHtype + 1
def bootpHops : Nat := bootpHlen + 1
def bootpXid : Nat := bootpHops + 1
def bootpSecs : Nat := bootpXid + 4
def bootpUnused : Nat := bootpSecs + 2
def bootpCiaddr : Nat := bootpUnused + 2
def bootpYiaddr : Nat := bootpCiaddr + 4
def bootpSiaddr : Nat := bootpYiaddr + 4
def bootpGiaddr : Nat := bootpSiaddr + 4
def bootpChaddr : Nat := bootpGiaddr + 4
def bootpSname : Nat := bootpChaddr + 16
def bootpFile : Nat := bootpSname + 64
def bootpVend : Nat := bootpFile + 128
def bootpEnd : Nat := bootpVend + 64

/-! ## The packet -/

/-- `memset` -/
def memset (buf : Nat → UInt8) (addr : Nat) (c : UInt8) (n : Nat) : Nat → UInt8 :=
  writeAt buf addr (List.replicate n c)

/-- `get_mac_addr`, of an endpoint with the address `mac`. -/
def getMacAddr (mac : Vector UInt8 6) (buf : Nat → UInt8) (addr : Nat) : Nat → UInt8 :=
  writeAt buf addr mac.toList

/-- The BOOTP message. -/
def bootpFields (mac : Vector UInt8 6) (buf : Nat → UInt8) (retry : Int) : Nat → UInt8 :=
  let high := UInt8.ofInt (retry >>> (8 : Nat))
  let low := UInt8.ofInt retry
  let buf := writeAt buf bootpOp [1, 1, 6, 0]
  -- six bytes into a field of four, the last two of them are in the way of the next field
  let buf := getMacAddr mac buf bootpXid
  let buf := writeAt buf bootpXid
    [buf bootpXid ^^^ buf (bootpXid + 4), buf (bootpXid + 1) ^^^ buf (bootpXid + 5),
      buf (bootpXid + 2) ^^^ high, buf (bootpXid + 3) ^^^ low]
  let buf := writeAt buf bootpSecs [high, low]
  let buf := memset buf bootpUnused 0 2
  let buf := memset buf bootpCiaddr 0 4
  let buf := memset buf bootpYiaddr 0 4
  let buf := memset buf bootpSiaddr 0 4
  let buf := memset buf bootpGiaddr 0 4
  let buf := memset buf bootpChaddr 0 16
  let buf := getMacAddr mac buf bootpChaddr
  let buf := memset buf bootpSname 0 64
  let buf := memset buf bootpFile 0 128
  memset buf bootpVend 0 64

/-- The pseudo-header and the UDP header, all but the checksum. -/
def udpFields (buf : Nat → UInt8) : Nat → UInt8 :=
  let buf := memset buf udpVirtSaddr 0 4
  let buf := memset buf udpVirtDaddr 0xff 4
  let buf := writeAt buf udpVirtZeros
    [0, 0x11, UInt8.ofNat ((bootpEnd - ipEnd) >>> 8), UInt8.ofNat (bootpEnd - ipEnd)]
  -- the ports of client and server, the length and the checksum
  writeAt buf udpSport
    [0, 68, 0, 67, UInt8.ofNat ((bootpEnd - ipEnd) >>> 8), UInt8.ofNat (bootpEnd - ipEnd), 0, 0]

/-- The IP header, all but the checksum. -/
def ipFields (buf : Nat → UInt8) : Nat → UInt8 :=
  -- version, TOS, total length, id, flags, TTL, protocol and header checksum
  let buf := writeAt buf ipVersion
    [0x45, 0, UInt8.ofNat (bootpEnd >>> 8), UInt8.ofNat bootpEnd, 0, 0, 0, 0, 63, 17, 0, 0]
  let buf := memset buf ipSource 0 4
  memset buf ipDest 0xff 4

/-- A UDP checksum of zero would mean that there is none. -/
def nonzeroSum (sum : UInt16) : UInt16 := if sum = 0 then 0xffff else sum

/-- Make a request in `buf`.  The result is its length. -/
def sendBootp (mac : Vector UInt8 6) (buf : Nat → UInt8) (retry : Int) : Int × (Nat → UInt8) :=
  let buf := udpFields (bootpFields mac buf retry)
  let sum := (ipv4Checksum (shortsAt buf udpVirtSaddr ((bootpEnd - udpVirtSaddr) / 2))).toUInt16
  let buf := ipFields (putShort buf udpChecksum (nonzeroSum sum))
  let sum := (ipv4Checksum (shortsAt buf ipVersion ((ipEnd - ipVersion) / 2))).toUInt16
  (bootpEnd, putShort buf ipChecksum sum)

/-! ## The message as one block -/

/-- The bytes of the BOOTP message. -/
def bootpMessage (mac : Vector UInt8 6) (retry : Int) : List UInt8 :=
  let high := UInt8.ofInt (retry >>> (8 : Nat))
  let low := UInt8.ofInt retry
  ([1, 1, 6, 0] : List UInt8)
    ++ [mac[0] ^^^ mac[4], mac[1] ^^^ mac[5], mac[2] ^^^ high, mac[3] ^^^ low]
    ++ [high, low] ++ List.replicate 18 0 ++ mac.toList ++ List.replicate 266 0

@[simp] theorem length_bootpMessage (mac : Vector UInt8 6) (retry : Int) :
    (bootpMessage mac retry).length = 300 := by
  simp only [bootpMessage, List.length_append, List.length_replicate, Vector.length_toList,
    List.length_cons, List.length_nil]

theorem getMacAddr_apply (mac : Vector UInt8 6) (buf : Nat → UInt8) (addr : Nat) {i : Nat}
    (hi : i < 6) : getMacAddr mac buf addr (addr + i) = mac[i] := by
  unfold getMacAddr
  rw [writeAt_inside buf addr _ (i := i) (by simpa using hi)]
  simp

/-- Blocks that follow each other, written one after the other. -/
theorem writeAt_next (buf : Nat → UInt8) (addr : Nat) (cs ds : List UInt8) {next : Nat}
    (hnext : next = addr + cs.length) :
    writeAt (writeAt buf addr cs) next ds = writeAt buf addr (cs ++ ds) := by
  rw [hnext]
  exact writeAt_append buf addr cs ds

/-- Every store of the message is inside of it. -/
theorem bootpFields_eq (mac : Vector UInt8 6) (buf : Nat → UInt8) (retry : Int) :
    bootpFields mac buf retry = writeAt buf bootpOp (bootpMessage mac retry) := by
  have hxid : ∀ (b : Nat → UInt8) (cs ds : List UInt8), cs.length = 4 → ds.length = 2 →
      writeAt (writeAt (getMacAddr mac b bootpXid) bootpXid cs) bootpSecs ds =
        writeAt b bootpXid (cs ++ ds) := by
    intro b cs ds hcs hds
    rw [writeAt_next _ bootpXid cs ds (by rw [hcs]; rfl)]
    exact writeAt_writeAt_same _ _ _ (by simp [hcs, hds])
  have hchaddr : ∀ b : Nat → UInt8,
      getMacAddr mac (memset b bootpChaddr 0 16) bootpChaddr =
        writeAt b bootpChaddr (mac.toList ++ List.replicate 10 0) := by
    intro b
    unfold getMacAddr memset
    rw [writeAt_writeAt_start _ _ _ (by simp)]
    simp
  unfold bootpFields
  simp only
  rw [hchaddr, hxid _ _ _ rfl rfl]
  have hmac := fun i (hi : i < 6) =>
    getMacAddr_apply mac (writeAt buf bootpOp [1, 1, 6, 0]) bootpXid hi
  have hfirst := hmac 0 (by decide)
  rw [Nat.add_zero] at hfirst
  rw [hfirst, hmac 1 (by decide), hmac 2 (by decide), hmac 3 (by decide), hmac 4 (by decide),
    hmac 5 (by decide)]
  unfold memset
  -- what is left is one store after the other
  iterate 10
    rw [writeAt_next _ bootpOp _ _ (by
      simp only [List.length_append, List.length_replicate, Vector.length_toList,
        List.length_cons, List.length_nil]
      rfl)]
  unfold bootpMessage
  simp only [List.append_assoc, List.replicate_append_replicate, Nat.reduceAdd]

/-! ## The headers as blocks -/

/-- The pseudo-header of the request. -/
def bootpPseudo : List UInt8 := [0, 0, 0, 0, 0xff, 0xff, 0xff, 0xff, 0, 0x11, 0x01, 0x34]

/-- The UDP header, with a checksum. -/
def bootpUdp (sum : UInt16) : List UInt8 :=
  [0, 68, 0, 67, 0x01, 0x34, (sum >>> 8).toUInt8, (sum &&& 0xff).toUInt8]

/-- The IP header, with a checksum. -/
def bootpIp (sum : UInt16) : List UInt8 :=
  [0x45, 0, 0x01, 0x48, 0, 0, 0, 0, 63, 17, (sum >>> 8).toUInt8, (sum &&& 0xff).toUInt8,
    0, 0, 0, 0, 0xff, 0xff, 0xff, 0xff]

theorem udpFields_eq (buf : Nat → UInt8) :
    udpFields buf = writeAt buf udpVirtSaddr (bootpPseudo ++ bootpUdp 0) := by
  unfold udpFields memset
  simp only
  iterate 3 rw [writeAt_next _ udpVirtSaddr _ _ (by rfl)]
  rfl

theorem ipFields_eq (buf : Nat → UInt8) : ipFields buf = writeAt buf ipVersion (bootpIp 0) := by
  unfold ipFields memset
  simp only
  iterate 2 rw [writeAt_next _ ipVersion _ _ (by rfl)]
  rfl

/-- A checksum stored into a header. -/
theorem writeAt_checksum (buf : Nat → UInt8) (addr : Nat) (before after cs : List UInt8)
    (sum : UInt16) {field : Nat} (hfield : field = addr + before.length) (hcs : cs.length = 2) :
    putShort (writeAt buf addr (before ++ cs ++ after)) field sum =
      writeAt buf addr
        (before ++ [(sum >>> 8).toUInt8, (sum &&& 0xff).toUInt8] ++ after) := by
  unfold putShort
  rw [hfield, List.append_assoc, ← writeAt_append, writeAt_writeAt_start _ _ _ (by simp [hcs]),
    writeAt_append, List.append_assoc]
  simp [hcs]

/-- The words of a block. -/
theorem shortsAt_block {m : Nat → UInt8} {addr : Nat} {cs : List UInt8} (h : HoldsAt m addr cs)
    {shorts : Nat} (hshorts : cs.length = 2 * shorts) :
    shortsAt m addr shorts = paddedShorts cs := by
  rw [← (paddedShorts_readAt m addr shorts).1, ← hshorts]
  exact congrArg paddedShorts h

/-! ## The request -/

/-- The UDP checksum of the request. -/
def bootpUdpSum (mac : Vector UInt8 6) (retry : Int) : UInt16 :=
  nonzeroSum (ipv4Checksum
    (paddedShorts (bootpPseudo ++ bootpUdp 0 ++ bootpMessage mac retry))).toUInt16

/-- The header checksum. -/
def bootpIpSum : UInt16 := (ipv4Checksum (paddedShorts (bootpIp 0))).toUInt16

/-- The bytes of the request. -/
def bootpPacket (mac : Vector UInt8 6) (retry : Int) : List UInt8 :=
  bootpIp bootpIpSum ++ bootpUdp (bootpUdpSum mac retry) ++ bootpMessage mac retry

@[simp] theorem length_bootpPacket (mac : Vector UInt8 6) (retry : Int) :
    (bootpPacket mac retry).length = 328 := by
  simp [bootpPacket, bootpIp, bootpUdp]

/-- The words that the UDP checksum is taken over. -/
theorem shortsAt_udpFields (mac : Vector UInt8 6) (buf : Nat → UInt8) (retry : Int) :
    shortsAt (udpFields (bootpFields mac buf retry)) udpVirtSaddr 160 =
      paddedShorts (bootpPseudo ++ bootpUdp 0 ++ bootpMessage mac retry) := by
  apply shortsAt_block _ (by simp [bootpPseudo, bootpUdp])
  rw [udpFields_eq, bootpFields_eq]
  apply HoldsAt.append
  · exact HoldsAt.written
  · exact HoldsAt.write HoldsAt.written (Or.inr (by rfl))

/-- The IP header takes the place of the pseudo-header. -/
theorem headers_eq (buf : Nat → UInt8) (ip pseudo udp message : List UInt8)
    (hip : ip.length = 20) (hpseudo : pseudo.length = 12) (hudp : udp.length = 8) :
    writeAt (writeAt (writeAt buf 28 message) 8 (pseudo ++ udp)) 0 ip =
      writeAt buf 0 (ip ++ udp ++ message) := by
  apply HoldsAt.eq_writeAt
  · apply HoldsAt.append
    · apply HoldsAt.append HoldsAt.written
      rw [← writeAt_append, hpseudo, hip]
      exact HoldsAt.write HoldsAt.written (Or.inr (by simp [hip]))
    · rw [List.length_append, hip, hudp]
      apply HoldsAt.write _ (Or.inr (by simp [hip]))
      exact HoldsAt.write HoldsAt.written (Or.inr (by simp [hpseudo, hudp]))
  · intro i hi
    rw [List.length_append, List.length_append, hip, hudp] at hi
    rw [writeAt_outside _ 0 _ (by omega), writeAt_outside _ 8 _ (by simp; omega),
      writeAt_outside _ 28 _ (by omega)]

theorem sendBootp_packet (mac : Vector UInt8 6) (buf : Nat → UInt8) (retry : Int) :
    sendBootp mac buf retry = (328, writeAt buf 0 (bootpPacket mac retry)) := by
  have hudpSum : ∀ b sum, putShort (writeAt b udpVirtSaddr (bootpPseudo ++ bootpUdp 0))
      udpChecksum sum = writeAt b udpVirtSaddr (bootpPseudo ++ bootpUdp sum) := fun b sum =>
    writeAt_checksum b udpVirtSaddr (bootpPseudo ++ [0, 68, 0, 67, 0x01, 0x34]) [] [0, 0] sum
      rfl rfl
  have hipSum : ∀ b sum, putShort (writeAt b ipVersion (bootpIp 0)) ipChecksum sum =
      writeAt b ipVersion (bootpIp sum) := fun b sum =>
    writeAt_checksum b ipVersion [0x45, 0, 0x01, 0x48, 0, 0, 0, 0, 63, 17]
      [0, 0, 0, 0, 0xff, 0xff, 0xff, 0xff] [0, 0] sum rfl rfl
  have hipShorts : ∀ b, shortsAt (writeAt b ipVersion (bootpIp 0)) ipVersion 10 =
      paddedShorts (bootpIp 0) := fun b => shortsAt_block HoldsAt.written rfl
  unfold sendBootp
  simp only
  rw [show (bootpEnd - udpVirtSaddr) / 2 = 160 from rfl, shortsAt_udpFields,
    show (ipEnd - ipVersion) / 2 = 10 from rfl, ipFields_eq, hipShorts, hipSum, udpFields_eq,
    hudpSum, bootpFields_eq]
  exact congrArg (Prod.mk _) (headers_eq buf _ _ _ _ rfl rfl rfl)

/-! ## Validity -/

/-- The pseudo-header of a packet: its addresses, its protocol and its UDP length. -/
def pseudoHeader (buf : Nat → UInt8) : List UInt16 :=
  shortsAt buf ipSource 2 ++ shortsAt buf ipDest 2 ++
    [shortOf 0 (buf ipProtocol), shortAt buf udpLength]

/-- The words that the UDP checksum of a packet is about. -/
def udpShorts (buf : Nat → UInt8) : List UInt16 :=
  pseudoHeader buf ++ paddedShorts (readAt buf udpSport (shortAt buf udpLength).toNat)

theorem shortOf_split (sum : UInt16) :
    shortOf (sum >>> 8).toUInt8 (sum &&& 0xff).toUInt8 = sum :=
  shortAt_putShort (fun _ => 0) 0 sum

theorem length_paddedShorts (cs : List UInt8) :
    (paddedShorts cs).length = (cs.length + 1) / 2 := by
  fun_induction paddedShorts cs with
  | case1 => rfl
  | case2 => simp
  | case3 high low bytes ih =>
      simp only [List.length_cons, ih]
      omega

/-- The words of an even number of bytes, and of those that follow. -/
theorem paddedShorts_append {shorts : Nat} {cs : List UInt8} (hcs : cs.length = 2 * shorts)
    (ds : List UInt8) : paddedShorts (cs ++ ds) = paddedShorts cs ++ paddedShorts ds := by
  induction shorts generalizing cs with
  | zero =>
      obtain rfl : cs = [] := List.length_eq_zero_iff.mp hcs
      rfl
  | succ shorts ih =>
      match cs, hcs with
      | high :: low :: rest, hcs =>
          have hrest : rest.length = 2 * shorts := by
            simp only [List.length_cons] at hcs
            omega
          rw [List.cons_append, List.cons_append, paddedShorts, paddedShorts, ih hrest,
            List.cons_append]

/-- A checksum in the place of the zero it was taken over, or all ones for a checksum of zero. -/
theorem checksum_words_valid {before after : List UInt16} {sum : UInt16}
    (hlength : (before ++ 0 :: after).length ≤ 65537)
    (hsum : sum = (ipv4Checksum (before ++ 0 :: after)).toUInt16 ∨
      sum = nonzeroSum (ipv4Checksum (before ++ 0 :: after)).toUInt16) :
    Valid 65536 (wordValues (before ++ sum :: after)) := by
  have htotal : ∀ w, (wordValues (before ++ w :: after)).sum =
      (wordValues (before ++ 0 :: after)).sum + w.toNat := by
    intro w
    simp only [wordValues, List.map_append, List.map_cons, List.sum_append, List.sum_cons,
      UInt16.toNat_zero]
    omega
  have hplain : Valid 65536 (wordValues
      (before ++ (ipv4Checksum (before ++ 0 :: after)).toUInt16 :: after)) := by
    apply valid_of_complement (by decide) (wordValues_lt (before ++ 0 :: after)) (wordValues_lt _)
    rw [htotal, checksum_toUInt16 hlength]
  rcases hsum with rfl | rfl
  · exact hplain
  · unfold nonzeroSum
    split_ifs with hzero
    · rw [hzero, valid_iff (by decide) (wordValues_lt _), htotal] at hplain
      rw [valid_iff (by decide) (wordValues_lt _), htotal]
      have hones : UInt16.toNat 0xffff = 65535 := rfl
      rw [UInt16.toNat_zero, Nat.add_zero] at hplain
      rw [hones]
      omega
    · exact hplain

theorem nonzeroSum_ne_zero (sum : UInt16) : nonzeroSum sum ≠ 0 := by
  unfold nonzeroSum
  split_ifs with hzero
  · decide
  · exact hzero

section Packet

variable {mac : Vector UInt8 6} {retry : Int} {buf : Nat → UInt8}

/-- The parts of a packet in memory. -/
theorem packet_parts (h : HoldsAt buf 0 (bootpPacket mac retry)) :
    HoldsAt buf ipVersion (bootpIp bootpIpSum) ∧
      HoldsAt buf udpSport (bootpUdp (bootpUdpSum mac retry) ++ bootpMessage mac retry) := by
  unfold bootpPacket at h
  rw [List.append_assoc] at h
  exact h.split

theorem packet_ipHeader (h : HoldsAt buf 0 (bootpPacket mac retry)) :
    Valid 65536 (wordValues (shortsAt buf ipVersion 10)) := by
  rw [shortsAt_block (packet_parts h).1 rfl]
  have hwords : ∀ sum, paddedShorts (bootpIp sum) =
      [0x4500, 0x0148, 0, 0, 0x3f11] ++ sum :: [0, 0, 0xffff, 0xffff] := by
    intro sum
    unfold bootpIp
    simp only [paddedShorts, shortOf_split]
    rfl
  have hsum : bootpIpSum = (ipv4Checksum ([0x4500, 0x0148, 0, 0, 0x3f11] ++
      0 :: [0, 0, 0xffff, 0xffff])).toUInt16 := by
    unfold bootpIpSum
    rw [hwords]
  rw [hwords]
  exact checksum_words_valid (by decide) (Or.inl hsum)

theorem packet_udpChecksum (h : HoldsAt buf 0 (bootpPacket mac retry)) :
    shortAt buf udpChecksum = bootpUdpSum mac retry := by
  have hudp := (packet_parts h).2.split.1
  have hhigh : buf 26 = (bootpUdpSum mac retry >>> 8).toUInt8 := 
    hudp.getElem (i := 6) (by simp [bootpUdp])
  have hlow : buf 27 = (bootpUdpSum mac retry &&& 0xff).toUInt8 :=
    hudp.getElem (i := 7) (by simp [bootpUdp])
  show shortOf (buf 26) (buf 27) = _
  rw [hhigh, hlow, shortOf_split]

/-- The pseudo-header is again what it was when the checksum was taken. -/
theorem packet_pseudoHeader (h : HoldsAt buf 0 (bootpPacket mac retry)) :
    pseudoHeader buf = paddedShorts bootpPseudo ∧ (shortAt buf udpLength).toNat = 308 := by
  obtain ⟨hip, hrest⟩ := packet_parts h
  have hudp := hrest.split.1
  have hprotocol : buf ipProtocol = 17 := hip.getElem (i := 9) (by decide)
  have hheader : HoldsAt buf ipVersion (([0x45, 0, 0x01, 0x48, 0, 0, 0, 0, 63, 17,
      (bootpIpSum >>> 8).toUInt8, (bootpIpSum &&& 0xff).toUInt8] : List UInt8) ++
        ([0, 0, 0, 0] ++ [0xff, 0xff, 0xff, 0xff])) := hip
  have haddresses : HoldsAt buf ipSource ([0, 0, 0, 0] ++ [0xff, 0xff, 0xff, 0xff]) :=
    hheader.split.2
  have hhigh : buf 24 = 0x01 := hudp.getElem (i := 4) (by simp [bootpUdp])
  have hlow : buf 25 = 0x34 := hudp.getElem (i := 5) (by simp [bootpUdp])
  have hlength : shortAt buf udpLength = 0x0134 := by
    show shortOf (buf 24) (buf 25) = _
    rw [hhigh, hlow]
    rfl
  refine ⟨?_, by rw [hlength]; rfl⟩
  have hdest : HoldsAt buf ipDest [0xff, 0xff, 0xff, 0xff] := haddresses.split.2
  unfold pseudoHeader
  rw [shortsAt_block haddresses.split.1 rfl, shortsAt_block hdest rfl, hprotocol, hlength]
  rfl

theorem packet_udp (h : HoldsAt buf 0 (bootpPacket mac retry)) :
    Valid 65536 (wordValues (udpShorts buf)) := by
  obtain ⟨hpseudo, hlength⟩ := packet_pseudoHeader h
  have hbody : readAt buf udpSport 308 =
      bootpUdp (bootpUdpSum mac retry) ++ bootpMessage mac retry := by
    have hrest := (packet_parts h).2
    unfold HoldsAt at hrest
    rwa [List.length_append, length_bootpMessage] at hrest
  have hwords : ∀ sum, paddedShorts bootpPseudo ++ paddedShorts (bootpUdp sum ++
      bootpMessage mac retry) = (paddedShorts bootpPseudo ++ [68, 67, 0x0134]) ++
        sum :: paddedShorts (bootpMessage mac retry) := by
    intro sum
    rw [@paddedShorts_append 4 _ rfl, List.append_assoc]
    congr 1
    unfold bootpUdp
    simp only [paddedShorts, shortOf_split]
    rfl
  unfold udpShorts
  rw [hpseudo, hlength, hbody, hwords]
  apply checksum_words_valid
  · have hhalf := length_paddedShorts (bootpMessage mac retry)
    rw [length_bootpMessage] at hhalf
    simp [bootpPseudo, paddedShorts, hhalf]
  · right
    unfold bootpUdpSum
    rw [List.append_assoc, @paddedShorts_append 6 _ rfl, hwords]

end Packet

/-- The request is determined by the MAC address and the retry count, and both of its checksums
are valid. -/
theorem sendBootp_valid (mac : Vector UInt8 6) (buf : Nat → UInt8) (retry : Int) :
    (sendBootp mac buf retry).1 = 328 ∧
      (∀ buf' : Nat → UInt8, readAt (sendBootp mac buf' retry).2 0 328 =
        readAt (sendBootp mac buf retry).2 0 328) ∧
      Valid 65536 (wordValues (shortsAt (sendBootp mac buf retry).2 ipVersion 10)) ∧
      shortAt (sendBootp mac buf retry).2 udpChecksum ≠ 0 ∧
      Valid 65536 (wordValues (udpShorts (sendBootp mac buf retry).2)) := by
  have hbytes : ∀ b : Nat → UInt8,
      readAt (sendBootp mac b retry).2 0 328 = bootpPacket mac retry := by
    intro b
    rw [sendBootp_packet, ← length_bootpPacket mac retry]
    exact readAt_writeAt b 0 _
  have hpacket : HoldsAt (sendBootp mac buf retry).2 0 (bootpPacket mac retry) := by
    rw [sendBootp_packet]
    exact readAt_writeAt buf 0 _
  refine ⟨?_, fun buf' => (hbytes buf').trans (hbytes buf).symm, packet_ipHeader hpacket, ?_,
    packet_udp hpacket⟩
  · rw [sendBootp_packet]
  · rw [packet_udpChecksum hpacket]
    exact nonzeroSum_ne_zero _

end Net
end WrpcSw
