import WrpcSw.Net.Ipv4

/-!
# Ping replies (`lib/icmp.c`)

`process_icmp` answers an echo request in place: it clips the length, rewrites the
headers around the payload and takes the two checksums over the buffer.  Neither the
total length field nor the checksum's word count is compared with what was received.

* `processIcmp_wellFormed_iff` — the reply to a request that was received whole is
  well formed exactly when its length is even or the byte after the request is zero:
  of an odd payload, the last word of the checksum takes that byte along.
* `processIcmp_confined_iff` — the reply is determined by the received bytes exactly
  when they decide that there is none, or cover everything that is read.
-/

namespace WrpcSw
namespace Net

open Memory OnesComplement

def icmpType : Nat := ipEnd
def icmpCode : Nat := icmpType + 1
def icmpChecksum : Nat := icmpCode + 1
def icmpEnd : Nat := icmpChecksum + 2

@[simp] theorem icmpType_eq : icmpType = 20 := rfl
@[simp] theorem icmpChecksum_eq : icmpChecksum = 22 := rfl
@[simp] theorem icmpEnd_eq : icmpEnd = 24 := rfl

/-- The total length field of the request. -/
def iplen (buf : Nat → UInt8) : Nat := (shortAt buf ipLen).toNat

/-- The length of the ICMP body, clipped to 64. -/
def hisBodyLen (buf : Nat → UInt8) : Int :=
  if (iplen buf : Int) - 24 > 64 then 64 else iplen buf - 24

/-- The buffer with the fields of the reply, all but the checksums.  The payload stays where it
is. -/
def replyFields (myIP : Vector UInt8 4) (buf : Nat → UInt8) : Nat → UInt8 :=
  let total := hisBodyLen buf + 24
  let hisIP := readAt buf ipSource 4
  -- version, TOS, total length, id, flags, TTL, protocol and header checksum
  let buf := writeAt buf ipVersion
    [0x45, 0, UInt8.ofInt (total >>> (8 : Nat)), UInt8.ofInt total, 0, 0, 0, 0, 63, 1, 0, 0]
  let buf := writeAt buf ipSource myIP.toList
  let buf := writeAt buf ipDest hisIP
  -- type, code and checksum
  writeAt buf icmpType [0, 0, 0, 0]

/-- The number of words the ICMP checksum is taken over.  The division rounds towards zero, and
a loop up to a negative count makes no step. -/
def icmpShorts (buf : Nat → UInt8) : Nat := ((hisBodyLen buf + 4 + 1).tdiv 2).toNat

/-- Answer the packet in `buf`, of which `len` bytes were received.  The result is the length of
the reply, zero for none. -/
def processIcmp (myIP : Vector UInt8 4) (buf : Nat → UInt8) (_len : Int) :
    Int × (Nat → UInt8) :=
  if buf ipVersion ≠ 0x45 ∨ readAt buf ipDest 4 ≠ myIP.toList then (0, buf)
  else if buf ipProtocol ≠ 0x01 ∨ buf icmpType ≠ 0x08 then (0, buf)
  else
    let reply := replyFields myIP buf
    let sum := (ipv4Checksum (shortsAt reply icmpType (icmpShorts buf))).toUInt16
    let reply := putShort reply icmpChecksum sum
    let sum := (ipv4Checksum (shortsAt reply ipVersion 10)).toUInt16
    (24 + hisBodyLen buf, putShort reply ipChecksum sum)

/-- The packet is an echo request to this node. -/
structure EchoRequest (myIP : Vector UInt8 4) (buf : Nat → UInt8) : Prop where
  version : buf ipVersion = 0x45
  dest : readAt buf ipDest 4 = myIP.toList
  protocol : buf ipProtocol = 0x01
  type : buf icmpType = 0x08

/-! ## What a reply consists of -/

section Reply

variable (myIP : Vector UInt8 4) (buf : Nat → UInt8)

/-- The checksum over the ICMP message. -/
def icmpSum : UInt16 :=
  (ipv4Checksum (shortsAt (replyFields myIP buf) icmpType (icmpShorts buf))).toUInt16

/-- The reply with the checksum of the ICMP message, but without that of the header. -/
def icmpReply : Nat → UInt8 := putShort (replyFields myIP buf) icmpChecksum (icmpSum myIP buf)

/-- The whole reply. -/
def wholeReply : Nat → UInt8 :=
  putShort (icmpReply myIP buf) ipChecksum
    (ipv4Checksum (shortsAt (icmpReply myIP buf) ipVersion 10)).toUInt16

variable {myIP buf}

/-- An echo request is answered, and nothing else is. -/
theorem processIcmp_request (h : EchoRequest myIP buf) (len : Int) :
    processIcmp myIP buf len = (24 + hisBodyLen buf, wholeReply myIP buf) := by
  unfold processIcmp
  rw [if_neg (not_or.mpr ⟨not_not.mpr h.version, not_not.mpr h.dest⟩),
    if_neg (not_or.mpr ⟨not_not.mpr h.protocol, not_not.mpr h.type⟩)]
  rfl

theorem processIcmp_other (h : ¬ EchoRequest myIP buf) (len : Int) :
    processIcmp myIP buf len = (0, buf) := by
  unfold processIcmp
  split_ifs with haddressed hicmp
  · rfl
  · rfl
  · push Not at haddressed hicmp
    exact absurd ⟨haddressed.1, haddressed.2, hicmp.1, hicmp.2⟩ h

variable (myIP buf)

/-- The regions of the reply before its checksums: the IP header, the two addresses, the ICMP
header and the payload. -/
theorem replyFields_header : HoldsAt (replyFields myIP buf) ipVersion
    [0x45, 0, UInt8.ofInt ((hisBodyLen buf + 24) >>> (8 : Nat)),
      UInt8.ofInt (hisBodyLen buf + 24), 0, 0, 0, 0, 63, 1, 0, 0] := by
  apply HoldsAt.write _ (Or.inl (by simp))
  apply HoldsAt.write _ (Or.inl (by simp))
  exact HoldsAt.write HoldsAt.written (Or.inl (by simp))

theorem replyFields_source : readAt (replyFields myIP buf) ipSource 4 = myIP.toList := by
  have hwritten : HoldsAt (replyFields myIP buf) ipSource myIP.toList := by
    apply HoldsAt.write _ (Or.inl (by simp))
    exact HoldsAt.write HoldsAt.written (Or.inl (by simp))
  simpa [HoldsAt] using hwritten

theorem replyFields_dest :
    readAt (replyFields myIP buf) ipDest 4 = readAt buf ipSource 4 := by
  have hwritten : HoldsAt (replyFields myIP buf) ipDest (readAt buf ipSource 4) := by
    exact HoldsAt.write HoldsAt.written (Or.inl (by simp))
  simpa [HoldsAt] using hwritten

theorem replyFields_icmp : HoldsAt (replyFields myIP buf) icmpType [0, 0, 0, 0] :=
  HoldsAt.written

theorem replyFields_body {i : Nat} (h : icmpEnd ≤ i) : replyFields myIP buf i = buf i := by
  rw [icmpEnd_eq] at h
  unfold replyFields
  rw [writeAt_outside _ icmpType _ (Or.inr h), writeAt_outside _ ipDest _ (Or.inr ?_),
    writeAt_outside _ ipSource _ (Or.inr ?_), writeAt_outside _ ipVersion _ (Or.inr ?_)]
  all_goals
    simp
    omega

/-- The checksums are all that the whole reply adds. -/
theorem wholeReply_outside {i : Nat} (hip : i < 10 ∨ 12 ≤ i) (hicmp : i < 22 ∨ 24 ≤ i) :
    wholeReply myIP buf i = replyFields myIP buf i := by
  unfold wholeReply icmpReply
  exact (putShort_outside _ ipChecksum _ hip).trans (putShort_outside _ icmpChecksum _ hicmp)

theorem wholeReply_body {i : Nat} (h : icmpEnd ≤ i) : wholeReply myIP buf i = buf i := by
  have hbody := h
  rw [icmpEnd_eq] at hbody
  rw [wholeReply_outside myIP buf (Or.inr (by omega)) (Or.inr hbody),
    replyFields_body myIP buf h]

/-- A negative count is no count, whichever way the division rounds. -/
theorem icmpShorts_eq_ediv : icmpShorts buf = ((hisBodyLen buf + 5) / 2).toNat := by
  unfold icmpShorts
  rw [add_assoc]
  rcases le_total 0 (hisBodyLen buf + 5) with hpos | hneg
  · rw [show hisBodyLen buf + (4 + 1) = hisBodyLen buf + 5 by ring,
      Int.tdiv_eq_ediv_of_nonneg hpos]
  · rw [show hisBodyLen buf + (4 + 1) = -(-(hisBodyLen buf + 5)) by ring, Int.neg_tdiv,
      Int.tdiv_eq_ediv_of_nonneg (by omega)]
    omega

theorem icmpShorts_le : icmpShorts buf ≤ 34 := by
  rw [icmpShorts_eq_ediv]
  unfold hisBodyLen
  split_ifs <;> omega

/-- The checksum of the IP header is valid. -/
theorem wholeReply_ipHeader :
    Valid 65536 (wordValues (shortsAt (wholeReply myIP buf) ipVersion 10)) := by
  apply checksum_valid (k := 5) (by decide) (by decide)
  have hheader := replyFields_header myIP buf
  apply UInt16.toNat_inj.mp
  rw [shortAt_toNat]
  have hhigh : icmpReply myIP buf 10 = 0 := by
    unfold icmpReply
    rw [putShort_outside _ _ _ (Or.inl (by simp))]
    exact hheader.getElem (i := 10) (by simp)
  have hlow : icmpReply myIP buf 11 = 0 := by
    unfold icmpReply
    rw [putShort_outside _ _ _ (Or.inl (by simp))]
    exact hheader.getElem (i := 11) (by simp)
  show 256 * (icmpReply myIP buf 10).toNat + (icmpReply myIP buf 11).toNat = 0
  rw [hhigh, hlow]
  rfl

/-- The checksum of the ICMP message is valid over the words it was taken over. -/
theorem wholeReply_icmp (hshorts : 1 < icmpShorts buf) :
    Valid 65536 (wordValues (shortsAt (wholeReply myIP buf) icmpType (icmpShorts buf))) := by
  have hsame : shortsAt (wholeReply myIP buf) icmpType (icmpShorts buf) =
      shortsAt (icmpReply myIP buf) icmpType (icmpShorts buf) := by
    apply shortsAt_congr
    intro i hi _
    rw [icmpType_eq] at hi
    exact putShort_outside _ _ _ (Or.inr (by simp; omega))
  rw [hsame]
  apply checksum_valid (k := 1) hshorts (by have := icmpShorts_le buf; omega)
  have hicmp := replyFields_icmp myIP buf
  apply UInt16.toNat_inj.mp
  rw [shortAt_toNat]
  have hhigh : replyFields myIP buf 22 = 0 := hicmp.getElem (i := 2) (by simp)
  have hlow : replyFields myIP buf 23 = 0 := hicmp.getElem (i := 3) (by simp)
  show 256 * (replyFields myIP buf 22).toNat + (replyFields myIP buf 23).toNat = 0
  rw [hhigh, hlow]
  rfl

theorem toNat_ofInt (x : Int) : (UInt8.ofInt x).toNat = (x % 256).toNat := by
  unfold UInt8.ofInt
  rw [UInt8.toNat_ofNat']
  omega

/-- The total length field of the reply. -/
theorem wholeReply_totalLen :
    ((shortAt (wholeReply myIP buf) ipLen).toNat : Int) = (24 + hisBodyLen buf) % 65536 := by
  have hheader := replyFields_header myIP buf
  have hhigh : replyFields myIP buf 2 = UInt8.ofInt ((hisBodyLen buf + 24) >>> (8 : Nat)) :=
    hheader.getElem (i := 2) (by simp)
  have hlow : replyFields myIP buf 3 = UInt8.ofInt (hisBodyLen buf + 24) :=
    hheader.getElem (i := 3) (by simp)
  have hrange : 0 ≤ hisBodyLen buf + 24 ∧ hisBodyLen buf + 24 ≤ 88 := by
    unfold hisBodyLen
    split_ifs <;> omega
  rw [shortAt_toNat, ipLen_eq, wholeReply_outside myIP buf (by decide) (by decide),
    wholeReply_outside myIP buf (by decide) (by decide), hhigh, hlow, toNat_ofInt, toNat_ofInt,
    Int.shiftRight_eq_div_pow]
  omega

theorem readAt_wholeReply {addr : Nat} (h : 12 ≤ addr ∧ addr + 4 ≤ 22) :
    readAt (wholeReply myIP buf) addr 4 = readAt (replyFields myIP buf) addr 4 :=
  readAt_congr fun _ hi hi' =>
    wholeReply_outside myIP buf (Or.inr (by omega)) (Or.inl (by omega))

end Reply

/-! ## Well-formed replies -/

/-- A conforming reply of `24 + bodyLen` bytes to the echo request in `buf`. -/
structure WellFormedReply (buf : Nat → UInt8) (bodyLen : Nat) (r : Int × (Nat → UInt8)) :
    Prop where
  length : r.1 = 24 + bodyLen
  totalLen : (shortAt r.2 ipLen).toNat = 24 + bodyLen
  source : readAt r.2 ipSource 4 = readAt buf ipDest 4
  dest : readAt r.2 ipDest 4 = readAt buf ipSource 4
  type : r.2 icmpType = 0
  body : readAt r.2 icmpEnd bodyLen = readAt buf icmpEnd bodyLen
  ipHeader : Valid 65536 (wordValues (shortsAt r.2 ipVersion 10))
  icmp : Valid 65536 (wordValues (paddedShorts (readAt r.2 icmpType (4 + bodyLen))))

section WellFormed

variable (myIP : Vector UInt8 4) {buf : Nat → UInt8}

/-- The body length of a request that carries at least an identifier. -/
theorem hisBodyLen_eq (h : 28 ≤ iplen buf) :
    hisBodyLen buf = (min (iplen buf - 24) 64 : Nat) := by
  unfold hisBodyLen
  split_ifs <;> omega

theorem icmpShorts_eq (h : 28 ≤ iplen buf) :
    icmpShorts buf = (min (iplen buf - 24) 64 + 5) / 2 := by
  rw [icmpShorts_eq_ediv, hisBodyLen_eq h]
  omega

/-- A last word is made invalid by dropping its low byte, unless that byte is zero. -/
theorem valid_drop_low {ws : List UInt16} {high low : UInt8}
    (h : Valid 65536 (wordValues (ws ++ [shortOf high low]))) :
    Valid 65536 (wordValues (ws ++ [shortOf high 0])) ↔ low = 0 := by
  constructor
  · intro hpadded
    obtain ⟨hdvd, -⟩ := (valid_iff (by decide) (wordValues_lt _)).mp h
    obtain ⟨hdvd', -⟩ := (valid_iff (by decide) (wordValues_lt _)).mp hpadded
    have hlow := low.toNat_lt
    simp only [wordValues, List.map_append, List.sum_append, List.map_singleton,
      List.sum_singleton, shortOf_toNat, UInt8.toNat_zero] at hdvd hdvd'
    apply UInt8.toNat_inj.mp
    rw [UInt8.toNat_zero]
    omega
  · rintro rfl
    exact h

/-- The ICMP message of a reply is valid exactly when its length is even or the byte behind the
request is zero. -/
theorem wholeReply_icmp_iff (h : 28 ≤ iplen buf) :
    Valid 65536 (wordValues (paddedShorts (readAt (wholeReply myIP buf) icmpType
        (4 + min (iplen buf - 24) 64)))) ↔
      min (iplen buf - 24) 64 % 2 = 0 ∨ buf (iplen buf) = 0 := by
  have hshorts := icmpShorts_eq h
  have hvalid := wholeReply_icmp myIP buf (by omega)
  rcases Nat.even_or_odd' (min (iplen buf - 24) 64) with ⟨k, heven | hodd⟩
  · rw [heven, show (2 * k + 5) / 2 = k + 2 by omega] at hshorts
    rw [heven, show 4 + 2 * k = 2 * (k + 2) by ring, (paddedShorts_readAt _ _ _).1, ← hshorts]
    simp only [hvalid, true_iff]
    omega
  · rw [hodd, show (2 * k + 1 + 5) / 2 = k + 2 + 1 by omega] at hshorts
    rw [hshorts, shortsAt_add, shortsAt_one] at hvalid
    have hlow : wholeReply myIP buf (icmpType + 2 * (k + 2) + 1) = buf (iplen buf) := by
      rw [wholeReply_body myIP buf (by simp; omega)]
      congr 1
      simp only [icmpType_eq]
      omega
    rw [hodd, show 4 + (2 * k + 1) = 2 * (k + 2) + 1 by ring, (paddedShorts_readAt _ _ _).2,
      valid_drop_low hvalid, hlow]
    simp only [show ¬ (2 * k + 1) % 2 = 0 by omega, false_or]

end WellFormed

/-- The reply to an echo request that was received whole is well formed exactly when its length
is even or the byte of the buffer right behind the request is zero. -/
theorem processIcmp_wellFormed_iff (myIP : Vector UInt8 4) (buf : Nat → UInt8) (len : Nat)
    (hrequest : EchoRequest myIP buf) (hmin : 28 ≤ iplen buf) (_hlen : iplen buf ≤ len) :
    WellFormedReply buf (min (iplen buf - 24) 64) (processIcmp myIP buf len) ↔
      min (iplen buf - 24) 64 % 2 = 0 ∨ buf (iplen buf) = 0 := by
  rw [processIcmp_request hrequest, ← wholeReply_icmp_iff myIP hmin]
  constructor
  · intro h
    exact h.icmp
  · intro hicmp
    have hlength : (24 : Int) + hisBodyLen buf = 24 + (min (iplen buf - 24) 64 : Nat) := by
      rw [hisBodyLen_eq hmin]
    constructor
    · exact hlength
    · have htotal := wholeReply_totalLen myIP buf
      rw [hlength] at htotal
      dsimp only
      omega
    · rw [readAt_wholeReply myIP buf (by decide)]
      exact (replyFields_source myIP buf).trans hrequest.dest.symm
    · rw [readAt_wholeReply myIP buf (by decide)]
      exact replyFields_dest myIP buf
    · exact (wholeReply_outside myIP buf (by decide) (by decide)).trans
        ((replyFields_icmp myIP buf).getElem (i := 0) (by simp))
    · exact readAt_congr fun i hi _ => wholeReply_body myIP buf hi
    · exact wholeReply_ipHeader myIP buf
    · exact hicmp

/-- The address of the node in the examples below. -/
def exampleIP : Vector UInt8 4 := #v[10, 0, 0, 2]

/-- An echo request of `iplen` bytes from 10.0.0.1, in a buffer with the byte `stale` behind its
first 29 bytes. -/
def exampleRequest (iplen stale : UInt8) : Nat → UInt8 := fun i =>
  [0x45, 0, 0, iplen, 0, 1, 0, 0, 64, 1, 0, 0, 10, 0, 0, 1, 10, 0, 0, 2, 8, 0, 0, 0, 0, 1, 0, 1, 7,
    stale].getD i 0

theorem exampleRequest_request (iplen stale : UInt8) :
    EchoRequest exampleIP (exampleRequest iplen stale) := ⟨rfl, rfl, rfl, rfl⟩

theorem processIcmp_wellFormed_even :
    WellFormedReply (exampleRequest 28 255) (min (iplen (exampleRequest 28 255) - 24) 64)
      (processIcmp exampleIP (exampleRequest 28 255) (28 : Nat)) :=
  (processIcmp_wellFormed_iff exampleIP (exampleRequest 28 255) 28 (exampleRequest_request _ _)
    (by decide) (by decide)).mpr (Or.inl (by decide))

/-- Five body bytes, and a one behind them. -/
theorem processIcmp_odd_invalid :
    ¬ WellFormedReply (exampleRequest 29 1) (min (iplen (exampleRequest 29 1) - 24) 64)
      (processIcmp exampleIP (exampleRequest 29 1) 29) := by
  intro h
  have hicmp := h.icmp
  rw [processIcmp_request (exampleRequest_request 29 1)] at hicmp
  exact absurd ((wholeReply_icmp_iff exampleIP (by decide)).mp hicmp) (by decide)

/-! ## Confinement to the received bytes -/

/-- The two buffers agree on the first `len` bytes. -/
def AgreeBelow (len : Nat) (buf buf' : Nat → UInt8) : Prop := ∀ i, i < len → buf i = buf' i

/-- Both packets are ignored, or both replies are sent with the same bytes. -/
def SameReply (r r' : Int × (Nat → UInt8)) : Prop :=
  (r.1 = 0 ∧ r'.1 = 0) ∨ (r.1 = r'.1 ∧ ∀ i : Nat, (i : Int) < r.1 → r.2 i = r'.2 i)

/-- One of the first `len` bytes alone shows that the packet is no echo request to this
node. -/
def Refused (myIP : Vector UInt8 4) (buf : Nat → UInt8) (len : Nat) : Prop :=
  (ipVersion < len ∧ buf ipVersion ≠ 0x45) ∨ (ipProtocol < len ∧ buf ipProtocol ≠ 0x01) ∨
    (∃ k : Fin 4, ipDest + k < len ∧ buf (ipDest + k) ≠ myIP[k]) ∨
    (icmpType < len ∧ buf icmpType ≠ 0x08)

/-- The bytes read for the payload and its checksum, the odd one at the end included, are among
the first `len`. -/
def BodyReceived (buf : Nat → UInt8) (len : Nat) : Prop :=
  hisBodyLen buf ≤ 0 ∨ icmpType + 2 * icmpShorts buf ≤ len

/-- The first `len` bytes decide on the reply: they show that there is none, the total length
among them is zero, or they cover what is read. -/
def Confined (myIP : Vector UInt8 4) (buf : Nat → UInt8) (len : Nat) : Prop :=
  Refused myIP buf len ∨ (ipLen + 2 ≤ len ∧ iplen buf = 0) ∨
    (icmpType < len ∧ BodyReceived buf len)

section Confined

variable {myIP : Vector UInt8 4} {buf buf' : Nat → UInt8} {len : Nat}

/-- The destination address byte by byte. -/
theorem dest_eq_iff : readAt buf ipDest 4 = myIP.toList ↔
    ∀ k : Fin 4, buf (ipDest + k) = myIP[k] := by
  constructor
  · intro h k
    have hbyte := congrArg (fun l : List UInt8 => l[(k : Nat)]?) h
    rw [List.getElem?_eq_getElem (by simp), getElem_readAt] at hbyte
    simpa using hbyte
  · intro h
    apply List.ext_getElem (by simp)
    intro i hi hi'
    rw [getElem_readAt]
    simpa using h ⟨i, by simpa using hi⟩

theorem refused_other (h : Refused myIP buf len) : ¬ EchoRequest myIP buf := by
  intro hrequest
  rcases h with ⟨-, hversion⟩ | ⟨-, hprotocol⟩ | ⟨k, -, hdest⟩ | ⟨-, htype⟩
  · exact hversion hrequest.version
  · exact hprotocol hrequest.protocol
  · exact hdest (dest_eq_iff.mp hrequest.dest k)
  · exact htype hrequest.type

theorem Refused.congr (hagree : AgreeBelow len buf buf') (h : Refused myIP buf len) :
    Refused myIP buf' len := by
  rcases h with ⟨hlt, hversion⟩ | ⟨hlt, hprotocol⟩ | ⟨k, hlt, hdest⟩ | ⟨hlt, htype⟩
  · exact Or.inl ⟨hlt, hagree _ hlt ▸ hversion⟩
  · exact Or.inr (Or.inl ⟨hlt, hagree _ hlt ▸ hprotocol⟩)
  · exact Or.inr (Or.inr (Or.inl ⟨k, hlt, hagree _ hlt ▸ hdest⟩))
  · exact Or.inr (Or.inr (Or.inr ⟨hlt, hagree _ hlt ▸ htype⟩))

/-- Where the whole header was received and refutes nothing, the packet is a request. -/
theorem request_of_not_refused (h : ¬ Refused myIP buf len) (hlen : icmpType < len) :
    EchoRequest myIP buf := by
  unfold Refused at h
  push Not at h
  obtain ⟨hversion, hprotocol, hdest, htype⟩ := h
  simp only [icmpType_eq] at hlen
  constructor
  · exact hversion (by simp; omega)
  · exact dest_eq_iff.mpr fun k => hdest k (by simp; omega)
  · exact hprotocol (by simp; omega)
  · exact htype hlen

theorem iplen_congr (hagree : AgreeBelow len buf buf') (hlen : ipLen + 2 ≤ len) :
    iplen buf = iplen buf' := by
  unfold iplen
  rw [shortAt_congr (hagree _ (by omega)) (hagree _ (by omega))]

theorem EchoRequest.congr (h : EchoRequest myIP buf) (hagree : AgreeBelow len buf buf')
    (hlen : icmpType < len) : EchoRequest myIP buf' := by
  simp only [icmpType_eq] at hlen
  constructor
  · rw [← hagree ipVersion (by simp; omega)]
    exact h.version
  · rw [← h.dest]
    exact readAt_congr fun i _ hi => (hagree i (by simp at hi; omega)).symm
  · rw [← hagree ipProtocol (by simp; omega)]
    exact h.protocol
  · rw [← hagree icmpType hlen]
    exact h.type

theorem hisBodyLen_congr (hagree : AgreeBelow len buf buf') (hlen : ipLen + 2 ≤ len) :
    hisBodyLen buf = hisBodyLen buf' := by
  unfold hisBodyLen
  rw [iplen_congr hagree hlen]

/-! ### What was received decides -/

/-- Behind the ICMP header, the fields of the reply are what was received. -/
theorem replyFields_congr (hagree : AgreeBelow len buf buf') (hlen : icmpType < len) {i : Nat}
    (hi : i < icmpEnd ∨ i < len) : replyFields myIP buf i = replyFields myIP buf' i := by
  simp only [icmpType_eq, icmpEnd_eq] at hlen hi
  have hsource : readAt buf ipSource 4 = readAt buf' ipSource 4 :=
    readAt_congr fun j _ hj => hagree j (by simp at hj; omega)
  unfold replyFields
  rw [hisBodyLen_congr hagree (by simp; omega), hsource]
  by_cases hreceived : i < len
  · apply writeAt_congr _ _ _ (Or.inl _)
    apply writeAt_congr _ _ _ (Or.inl _)
    apply writeAt_congr _ _ _ (Or.inl _)
    exact writeAt_congr _ _ _ (Or.inl (hagree i hreceived))
  · exact writeAt_congr _ _ _ (Or.inr (by simp; omega))

/-- So is the whole reply, once everything that is summed was received. -/
theorem wholeReply_congr (hagree : AgreeBelow len buf buf') (hlen : icmpType < len)
    (hbody : BodyReceived buf len) {i : Nat} (hi : i < icmpEnd ∨ i < len) :
    wholeReply myIP buf i = wholeReply myIP buf' i := by
  have hshorts : icmpShorts buf = icmpShorts buf' := by
    unfold icmpShorts
    rw [hisBodyLen_congr hagree (by simp at hlen ⊢; omega)]
  have hcover : ∀ j, j < icmpType + 2 * icmpShorts buf → j < icmpEnd ∨ j < len := by
    intro j hj
    rcases hbody with hempty | hreceived
    · left
      rw [icmpShorts_eq_ediv] at hj
      simp at hj ⊢
      omega
    · exact Or.inr (by omega)
  have hsum : icmpSum myIP buf = icmpSum myIP buf' := by
    unfold icmpSum
    rw [← hshorts, shortsAt_congr fun j _ hj => replyFields_congr hagree hlen (hcover j hj)]
  have hreply : ∀ j, j < icmpEnd ∨ j < len → icmpReply myIP buf j = icmpReply myIP buf' j := by
    intro j hj
    unfold icmpReply
    rw [hsum]
    exact writeAt_congr _ _ _ (Or.inl (replyFields_congr hagree hlen hj))
  unfold wholeReply
  rw [shortsAt_congr fun j _ hj => hreply j (Or.inl (by simp at hj ⊢; omega))]
  exact writeAt_congr _ _ _ (Or.inl (hreply i hi))

/-- The received bytes decide on the reply. -/
theorem sameReply_of_confined (hagree : AgreeBelow len buf buf') (h : Confined myIP buf len) :
    SameReply (processIcmp myIP buf len) (processIcmp myIP buf' len) := by
  by_cases hrefused : Refused myIP buf len
  · left
    rw [processIcmp_other (refused_other hrefused),
      processIcmp_other (refused_other (hrefused.congr hagree))]
    exact ⟨rfl, rfl⟩
  · rcases h with hrefused' | ⟨hlen, hempty⟩ | ⟨hlen, hbody⟩
    · exact absurd hrefused' hrefused
    · -- a total length of zero makes the length of the reply zero as well
      left
      have hzero : ∀ b, iplen b = 0 → (processIcmp myIP b len).1 = 0 := by
        intro b hb
        by_cases hrequest : EchoRequest myIP b
        · rw [processIcmp_request hrequest]
          simp [hisBodyLen, hb]
        · rw [processIcmp_other hrequest]
      exact ⟨hzero buf hempty, hzero buf' (iplen_congr hagree hlen ▸ hempty)⟩
    · right
      have hrequest := request_of_not_refused hrefused hlen
      rw [processIcmp_request hrequest, processIcmp_request (hrequest.congr hagree hlen)]
      refine ⟨by rw [hisBodyLen_congr hagree (by simp at hlen ⊢; omega)], ?_⟩
      intro i hi
      apply wholeReply_congr hagree hlen hbody
      rcases hbody with hempty | hreceived
      · exact Or.inl (by simp; omega)
      · right
        rw [icmpShorts_eq_ediv] at hreceived
        simp at hreceived
        omega

/-! ### What was not received shows -/

/-- The bytes of an echo request with a total length of one. -/
def template (myIP : Vector UInt8 4) : List UInt8 :=
  [0x45, 0, 0, 1, 0, 0, 0, 0, 0, 1, 0, 0, 0, 0, 0, 0] ++ (myIP.toList ++ [8])

/-- The received bytes, completed to an echo request. -/
def completed (myIP : Vector UInt8 4) (buf : Nat → UInt8) (len : Nat) : Nat → UInt8 :=
  fun i => if i < len then buf i else (template myIP).getD i 0

variable (myIP buf len) in
theorem agreeBelow_completed : AgreeBelow len buf (completed myIP buf len) :=
  fun i hi => by simp [completed, hi]

theorem template_dest (k : Fin 4) : (template myIP).getD (16 + k) 0 = myIP[k] := by
  unfold template
  rw [List.getD_append_right _ _ _ _ (by simp), List.getD_append _ _ _ _ (by simp)]
  rw [List.getD_eq_getElem _ _ (by simp)]
  simp

theorem template_type : (template myIP).getD 20 0 = 8 := by
  unfold template
  rw [List.getD_append_right _ _ _ _ (by simp), List.getD_append_right _ _ _ _ (by simp)]
  simp

/-- What the received byte and the template both are. -/
theorem completed_eq {i : Nat} {x : UInt8} (hreceived : i < len → buf i = x)
    (htemplate : (template myIP).getD i 0 = x) : completed myIP buf len i = x := by
  unfold completed
  by_cases hi : i < len
  · rw [if_pos hi]
    exact hreceived hi
  · rw [if_neg hi]
    exact htemplate

/-- As long as no received byte is wrong, the completed packet is a request. -/
theorem completed_request (h : ¬ Refused myIP buf len) :
    EchoRequest myIP (completed myIP buf len) := by
  unfold Refused at h
  push Not at h
  obtain ⟨hversion, hprotocol, hdest, htype⟩ := h
  constructor
  · exact completed_eq hversion rfl
  · exact dest_eq_iff.mpr fun k => completed_eq (hdest k) (template_dest k)
  · exact completed_eq hprotocol rfl
  · exact completed_eq htype template_type

variable (myIP) in
/-- Its total length is not zero, unless that was received. -/
theorem completed_iplen (h : ipLen + 2 ≤ len → iplen buf ≠ 0) :
    iplen (completed myIP buf len) ≠ 0 := by
  by_cases hlen : ipLen + 2 ≤ len
  · rw [← iplen_congr (agreeBelow_completed myIP buf len) hlen]
    exact h hlen
  · rw [ipLen_eq] at hlen
    have hlow : completed myIP buf len 3 = 1 := completed_eq (fun hi => absurd hi (by omega)) rfl
    unfold iplen
    rw [shortAt_toNat, ipLen_eq, hlow]
    simp

/-- A request may stop being one with a byte that was not received. -/
theorem spoiled_type (buf : Nat → UInt8) : ¬ EchoRequest myIP (Function.update buf icmpType 9) := by
  intro h
  have htype := h.type
  rw [Function.update_self] at htype
  exact absurd htype (by decide)

theorem agreeBelow_update {p : Nat} (hp : len ≤ p) (x : UInt8) :
    AgreeBelow len buf (Function.update buf p x) :=
  fun i hi => by rw [Function.update_of_ne (by omega)]

/-- With less than the header received, some continuation is answered and another one is
not. -/
theorem header_decides (hrefused : ¬ Refused myIP buf len)
    (hempty : ipLen + 2 ≤ len → iplen buf ≠ 0) (hlen : len ≤ icmpType)
    (hsame : ∀ buf', AgreeBelow len buf buf' →
      SameReply (processIcmp myIP buf len) (processIcmp myIP buf' len)) : False := by
  -- the reply to `buf` would be the one to the completed packet, and none at all
  have hreply := hsame _ (agreeBelow_completed myIP buf len)
  have hnone := hsame _ (agreeBelow_update hlen 9)
  rw [processIcmp_request (completed_request hrefused)] at hreply
  rw [processIcmp_other (spoiled_type buf)] at hnone
  have hzero : (processIcmp myIP buf len).1 = 0 := by
    rcases hnone with ⟨hzero, -⟩ | ⟨heq, -⟩
    · exact hzero
    · exact heq
  have hlength : 24 + hisBodyLen (completed myIP buf len) = 0 := by
    rcases hreply with ⟨-, hlength⟩ | ⟨heq, -⟩
    · exact hlength
    · rw [← hzero]
      exact heq.symm
  have hpositive := completed_iplen myIP hempty
  unfold hisBodyLen at hlength
  split_ifs at hlength <;> omega

/-- The ICMP checksum can be read off the reply. -/
theorem wholeReply_sum : shortAt (wholeReply myIP buf) icmpChecksum = icmpSum myIP buf := by
  have hsame : ∀ i, 12 ≤ i → wholeReply myIP buf i = icmpReply myIP buf i :=
    fun i hi => putShort_outside _ _ _ (Or.inr hi)
  rw [shortAt_congr (hsame _ (by simp)) (hsame _ (by simp))]
  exact shortAt_putShort _ _ _

/-- The byte that pads an odd body shows in the checksum. -/
theorem icmpSum_pad (hagree : AgreeBelow len buf buf') (hrequest : icmpType < len) {k : Nat}
    (hshorts : icmpShorts buf = k + 1) (hlen : len = icmpType + 2 * k + 1)
    (hpad : icmpEnd ≤ len) (hsum : icmpSum myIP buf = icmpSum myIP buf') : buf len = buf' len := by
  have hshorts' : icmpShorts buf' = k + 1 := by
    unfold icmpShorts at hshorts ⊢
    rwa [← hisBodyLen_congr hagree (by simp at hrequest ⊢; omega)]
  have hprefix : shortsAt (replyFields myIP buf) icmpType k =
      shortsAt (replyFields myIP buf') icmpType k :=
    shortsAt_congr fun i _ hi => replyFields_congr hagree hrequest (Or.inr (by omega))
  have hhigh : replyFields myIP buf (icmpType + 2 * k) = replyFields myIP buf' (icmpType + 2 * k) :=
    replyFields_congr hagree hrequest (Or.inr (by omega))
  have hfew := icmpShorts_le buf
  unfold icmpSum at hsum
  rw [hshorts, hshorts', shortsAt_add, shortsAt_add, shortsAt_one, shortsAt_one, ← hprefix] at hsum
  unfold shortAt at hsum
  rw [← hhigh, ← hlen, replyFields_body myIP buf hpad, replyFields_body myIP buf' hpad] at hsum
  exact low_eq_of_checksum_eq (by simp; omega) hsum

/-- With less than the body received, the first byte that is missing shows in the reply. -/
theorem body_decides (hrefused : ¬ Refused myIP buf len) (hlen : icmpType < len)
    (hbody : ¬ BodyReceived buf len)
    (hsame : ∀ buf', AgreeBelow len buf buf' →
      SameReply (processIcmp myIP buf len) (processIcmp myIP buf' len)) : False := by
  have hrequest := request_of_not_refused hrefused hlen
  unfold BodyReceived at hbody
  push Not at hbody
  obtain ⟨hpositive, hshort⟩ := hbody
  rw [icmpShorts_eq_ediv] at hshort
  simp only [icmpType_eq] at hlen hshort
  -- the bytes of the ICMP header are overwritten, the one after them is not
  obtain ⟨p, hp⟩ : ∃ p, p = max len 24 := ⟨_, rfl⟩
  have hagree : AgreeBelow p buf (Function.update buf p (buf p + 1)) :=
    agreeBelow_update (le_refl p) _
  have hrequest' := hrequest.congr hagree (by simp; omega)
  have hlength := hisBodyLen_congr hagree (by simp; omega)
  have hreply := hsame _ (agreeBelow_update (by omega : len ≤ p) (buf p + 1))
  rw [processIcmp_request hrequest, processIcmp_request hrequest'] at hreply
  have hbytes : ∀ i : Nat, (i : Int) < 24 + hisBodyLen buf → wholeReply myIP buf i =
      wholeReply myIP (Function.update buf p (buf p + 1)) i := by
    rcases hreply with ⟨hzero, -⟩ | ⟨-, hbytes⟩
    · exact absurd hzero (by dsimp only; omega)
    · exact hbytes
  have hsucc : buf p ≠ buf p + 1 := by
    intro heq
    have hone := congrArg UInt8.toNat heq
    rw [UInt8.toNat_add, UInt8.toNat_one] at hone
    have hlt := (buf p).toNat_lt
    omega
  by_cases hinside : (p : Int) < 24 + hisBodyLen buf
  · have hbyte := hbytes p hinside
    rw [wholeReply_body myIP buf (by simp; omega), wholeReply_body myIP _ (by simp; omega),
      Function.update_self] at hbyte
    exact hsucc hbyte
  · -- only the padding is missing, and the checksum tells it
    obtain ⟨k, hk⟩ : ∃ k, icmpShorts buf = k + 1 := ⟨icmpShorts buf - 1, by
      rw [icmpShorts_eq_ediv]
      omega⟩
    have hsum : icmpSum myIP buf = icmpSum myIP (Function.update buf p (buf p + 1)) := by
      rw [← wholeReply_sum, ← wholeReply_sum]
      exact shortAt_congr (hbytes _ (by simp; omega)) (hbytes _ (by simp; omega))
    have hpad := icmpSum_pad hagree (by simp; omega) hk
      (by rw [icmpShorts_eq_ediv] at hk; simp only [icmpType_eq]; omega) (by simp; omega) hsum
    rw [Function.update_self] at hpad
    exact hsucc hpad

end Confined

/-- A reply tells nothing about bytes that were not received exactly when the received ones decide
on it: they show that the packet is no request, its total length is zero, or they cover the
headers, the payload and the odd byte behind it that the checksum takes along. -/
theorem processIcmp_confined_iff (myIP : Vector UInt8 4) (buf : Nat → UInt8) (len : Nat) :
    (∀ buf', AgreeBelow len buf buf' →
        SameReply (processIcmp myIP buf len) (processIcmp myIP buf' len)) ↔
      Confined myIP buf len := by
  constructor
  · intro hsame
    by_contra hconfined
    unfold Confined at hconfined
    push Not at hconfined
    obtain ⟨hrefused, hempty, hbody⟩ := hconfined
    rcases Nat.lt_or_ge icmpType len with hlen | hlen
    · exact body_decides hrefused hlen (hbody hlen) hsame
    · exact header_decides hrefused hempty hlen hsame
  · intro hconfined buf' hagree
    exact sameReply_of_confined hagree hconfined

/-- A total length of 88 over 29 received bytes: the byte behind them is sent back. -/
theorem processIcmp_leaks :
    ¬ ∀ (myIP : Vector UInt8 4) (len : Nat) (buf buf' : Nat → UInt8), AgreeBelow len buf buf' →
      SameReply (processIcmp myIP buf len) (processIcmp myIP buf' len) := by
  intro h
  have hsame := h exampleIP 29 (exampleRequest 88 0) (exampleRequest 88 1) (by
    unfold AgreeBelow
    decide)
  rw [processIcmp_request (exampleRequest_request 88 0),
    processIcmp_request (exampleRequest_request 88 1)] at hsame
  rcases hsame with ⟨hzero, -⟩ | ⟨-, hbytes⟩
  · exact absurd hzero (by decide)
  · have hbyte := hbytes 29 (by decide)
    dsimp only at hbyte
    rw [wholeReply_body exampleIP _ (by simp), wholeReply_body exampleIP _ (by simp)] at hbyte
    exact absurd hbyte (by decide)

end Net
end WrpcSw
