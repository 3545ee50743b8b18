import WrpcSw.Net.Bootp
import WrpcSw.Net.Icmp

/-!
# Address resolution (`lib/arp.c`)

`process_arp` answers a request for the address of the node in place.  Of the request it looks at
the operation and the target address only; the types and lengths of the reply are its own.

* `ArpMessage` — what a message of this kind says, and its bytes.
* `processArp_request`, `processArp_other` — the reply, and what is not answered.
* `processArp_resolves` — a reply binds the address of the node to its MAC address, depends on the
  received bytes only, and is answered by nobody.
-/

namespace WrpcSw
namespace Net

open Memory

/-! ## Offsets -/

def arpHtype : Nat := 0
def arpPtype : Nat := arpHtype + 2
def arpHlen : Nat := arpPtype + 2
def arpPlen : Nat := arpHlen + 1
def arpOper : Nat := arpPlen + 1
def arpSha : Nat := arpOper + 2
def arpSpa : Nat := arpSha + 6
def arpTha : Nat := arpSpa + 4
def arpTpa : Nat := arpTha + 6
def arpEnd : Nat := arpTpa + 4

@[simp] theorem arpOper_eq : arpOper = 6 := rfl
@[simp] theorem arpTpa_eq : arpTpa = 24 := rfl
@[simp] theorem arpEnd_eq : arpEnd = 28 := rfl

/-! ## The reply -/

/-- Answer the message in `buf`, of which `len` bytes were received.  The result is the length of
the reply, zero for none. -/
def processArp (mac : Vector UInt8 6) (myIP : Vector UInt8 4) (buf : Nat → UInt8) (len : Int) :
    Int × (Nat → UInt8) :=
  if len < arpEnd then (0, buf)
  else if buf arpOper ≠ 0 ∨ buf (arpOper + 1) ≠ 1 ∨ readAt buf arpTpa 4 ≠ myIP.toList then
    (0, buf)
  else
    let hisMAC := readAt buf arpSha 6
    let hisIP := readAt buf arpSpa 4
    let buf := writeAt buf arpHtype [0, 1]
    let buf := writeAt buf arpPtype [8, 0]
    let buf := writeAt buf arpHlen [6]
    let buf := writeAt buf arpPlen [4]
    let buf := writeAt buf arpOper [0, 2]
    let buf := getMacAddr mac buf arpSha
    let buf := writeAt buf arpSpa myIP.toList
    let buf := writeAt buf arpTha hisMAC
    let buf := writeAt buf arpTpa hisIP
    (arpEnd, buf)

/-- The message is a request for the address of this node. -/
structure ArpRequest (myIP : Vector UInt8 4) (buf : Nat → UInt8) (len : Int) : Prop where
  whole : arpEnd ≤ len
  high : buf arpOper = 0
  low : buf (arpOper + 1) = 1
  target : readAt buf arpTpa 4 = myIP.toList

/-- The `n` bytes from an address on. -/
def vectorAt (buf : Nat → UInt8) (addr n : Nat) : Vector UInt8 n :=
  Vector.ofFn fun i => buf (addr + i)

theorem toList_vectorAt (buf : Nat → UInt8) (addr n : Nat) :
    (vectorAt buf addr n).toList = readAt buf addr n := by
  apply List.ext_getElem (by simp)
  intro i hi hi'
  rw [getElem_readAt, Vector.getElem_toList]
  exact Vector.getElem_ofFn _

theorem vectorAt_eq {buf : Nat → UInt8} {addr n : Nat} {v : Vector UInt8 n}
    (h : HoldsAt buf addr v.toList) : vectorAt buf addr n = v := by
  apply Vector.toList_inj.mp
  rw [toList_vectorAt]
  unfold HoldsAt at h
  rwa [Vector.length_toList] at h

/-- An ARP message for IPv4 over Ethernet: the operation, and the two addresses of the sender and
of the target. -/
structure ArpMessage where
  oper : UInt8
  sha : Vector UInt8 6
  spa : Vector UInt8 4
  tha : Vector UInt8 6
  tpa : Vector UInt8 4

namespace ArpMessage

def toBytes (a : ArpMessage) : List UInt8 :=
  [0, 1, 8, 0, 6, 4, 0, a.oper] ++ (a.sha.toList ++ (a.spa.toList ++
    (a.tha.toList ++ a.tpa.toList)))

/-- The message at the beginning of a buffer. -/
def ofBuffer (buf : Nat → UInt8) : ArpMessage where
  oper := buf (arpOper + 1)
  sha := vectorAt buf arpSha 6
  spa := vectorAt buf arpSpa 4
  tha := vectorAt buf arpTha 6
  tpa := vectorAt buf arpTpa 4

/-- The reply of a node to the sender of a message. -/
def reply (a : ArpMessage) (mac : Vector UInt8 6) (myIP : Vector UInt8 4) : ArpMessage where
  oper := 2
  sha := mac
  spa := myIP
  tha := a.sha
  tpa := a.spa

@[simp] theorem length_toBytes (a : ArpMessage) : a.toBytes.length = 28 := by
  simp [toBytes]

/-- The parts of a message in memory. -/
theorem parts {a : ArpMessage} {buf : Nat → UInt8} (h : HoldsAt buf 0 a.toBytes) :
    HoldsAt buf 0 [0, 1, 8, 0, 6, 4, 0, a.oper] ∧ HoldsAt buf arpSha a.sha.toList ∧
      HoldsAt buf arpSpa a.spa.toList ∧ HoldsAt buf arpTha a.tha.toList ∧
      HoldsAt buf arpTpa a.tpa.toList := by
  obtain ⟨hhead, h⟩ := h.split
  obtain ⟨hsha, h⟩ := h.split
  obtain ⟨hspa, h⟩ := h.split
  obtain ⟨htha, htpa⟩ := h.split
  simp only [Vector.length_toList] at hspa htha htpa
  exact ⟨hhead, hsha, hspa, htha, htpa⟩

/-- A message is read back from its bytes. -/
theorem ofBuffer_eq {a : ArpMessage} {buf : Nat → UInt8} (h : HoldsAt buf 0 a.toBytes) :
    ofBuffer buf = a := by
  obtain ⟨hhead, hsha, hspa, htha, htpa⟩ := parts h
  have hoper : buf (arpOper + 1) = a.oper := hhead.getElem (i := 7) (Nat.lt_succ_self 7)
  unfold ofBuffer
  rw [hoper, vectorAt_eq hsha, vectorAt_eq hspa, vectorAt_eq htha, vectorAt_eq htpa]

end ArpMessage

section Process

variable (mac : Vector UInt8 6) {myIP : Vector UInt8 4} {buf : Nat → UInt8} {len : Int}

/-- A request is answered with one block of 28 bytes. -/
theorem processArp_request (h : ArpRequest myIP buf len) :
    processArp mac myIP buf len =
      (28, writeAt buf 0 ((ArpMessage.ofBuffer buf).reply mac myIP).toBytes) := by
  have hwhole : ¬ len < arpEnd := not_lt.mpr h.whole
  have hrequest : ¬ (buf arpOper ≠ 0 ∨ buf (arpOper + 1) ≠ 1 ∨
      readAt buf arpTpa 4 ≠ myIP.toList) := by
    rintro (hhigh | hlow | htarget)
    · exact hhigh h.high
    · exact hlow h.low
    · exact htarget h.target
  have hnext : ∀ (cs ds : List UInt8) (next : Nat), next = cs.length →
      writeAt (writeAt buf 0 cs) next ds = writeAt buf 0 (cs ++ ds) := by
    intro cs ds next hlength
    exact writeAt_next buf 0 cs ds (by rw [hlength, Nat.zero_add])
  unfold processArp
  rw [if_neg hwhole, if_neg hrequest]
  unfold getMacAddr
  show ((28 : Int), writeAt (writeAt (writeAt (writeAt (writeAt (writeAt (writeAt (writeAt
    (writeAt buf 0 [0, 1]) 2 [8, 0]) 4 [6]) 5 [4]) 6 [0, 2]) 8 mac.toList) 14 myIP.toList) 18
      (readAt buf arpSha 6)) 24 (readAt buf arpSpa 4)) = _
  -- every store begins where the one before has ended
  iterate 8 rw [hnext _ _ _ (by simp)]
  simp only [ArpMessage.toBytes, ArpMessage.reply, ArpMessage.ofBuffer, toList_vectorAt,
    List.append_assoc]
  rfl

theorem processArp_other (h : ¬ ArpRequest myIP buf len) :
    processArp mac myIP buf len = (0, buf) := by
  unfold processArp
  split_ifs with hshort hother
  · rfl
  · rfl
  · push Not at hother
    exact absurd ⟨not_lt.mp hshort, hother.1, hother.2.1, hother.2.2⟩ h

end Process

/-! ## Requests and replies -/

/-- The first 28 bytes decide. -/
theorem ArpRequest.congr {myIP : Vector UInt8 4} {buf buf' : Nat → UInt8} {len : Nat}
    (h : ArpRequest myIP buf len) (hagree : AgreeBelow len buf buf') :
    ArpRequest myIP buf' len := by
  have hwhole := h.whole
  rw [arpEnd_eq] at hwhole
  have hlen : 28 ≤ len := by omega
  constructor
  · exact h.whole
  · rw [← hagree arpOper (by rw [arpOper_eq]; omega)]
    exact h.high
  · rw [← hagree (arpOper + 1) (by rw [arpOper_eq]; omega)]
    exact h.low
  · rw [← h.target]
    exact readAt_congr fun i _ hi => (hagree i (by rw [arpTpa_eq] at hi; omega)).symm

theorem vectorAt_congr {buf buf' : Nat → UInt8} {addr n len : Nat}
    (hagree : AgreeBelow len buf buf') (hlen : addr + n ≤ len) :
    vectorAt buf addr n = vectorAt buf' addr n := by
  apply Vector.toList_inj.mp
  rw [toList_vectorAt, toList_vectorAt]
  exact readAt_congr fun i _ hi => hagree i (by omega)

/-- The two replies to what was received are the same. -/
theorem processArp_confined (mac : Vector UInt8 6) (myIP : Vector UInt8 4)
    {buf buf' : Nat → UInt8} {len : Nat} (hagree : AgreeBelow len buf buf') :
    SameReply (processArp mac myIP buf len) (processArp mac myIP buf' len) := by
  have hback : AgreeBelow len buf' buf := fun i hi => (hagree i hi).symm
  by_cases h : ArpRequest myIP buf len
  · have hwhole : 28 ≤ len := by
      have hle := h.whole
      rw [arpEnd_eq] at hle
      omega
    have hsender : (ArpMessage.ofBuffer buf).reply mac myIP =
        (ArpMessage.ofBuffer buf').reply mac myIP := by
      have hsha : vectorAt buf arpSha 6 = vectorAt buf' arpSha 6 :=
        vectorAt_congr hagree (by show 8 + 6 ≤ len; omega)
      have hspa : vectorAt buf arpSpa 4 = vectorAt buf' arpSpa 4 :=
        vectorAt_congr hagree (by show 14 + 4 ≤ len; omega)
      simp only [ArpMessage.reply, ArpMessage.ofBuffer, hsha, hspa]
    rw [processArp_request mac h, processArp_request mac (h.congr hagree), hsender]
    refine Or.inr ⟨rfl, fun i hi => ?_⟩
    have hlt : i < 28 := by
      have hlt : (i : Int) < 28 := hi
      omega
    exact writeAt_congr buf 0 _ (Or.inr ⟨Nat.zero_le i, by simpa using hlt⟩)
  · rw [processArp_other mac h, processArp_other mac fun h' => h (h'.congr hback)]
    exact Or.inl ⟨rfl, rfl⟩

/-- A reply is answered by nobody. -/
theorem processArp_reply {a : ArpMessage} (ha : a.oper = 2) {buf : Nat → UInt8}
    (h : HoldsAt buf 0 a.toBytes) (mac : Vector UInt8 6) (myIP : Vector UInt8 4) (len : Int) :
    processArp mac myIP buf len = (0, buf) := by
  refine processArp_other mac fun hrequest => ?_
  have hoper : buf (arpOper + 1) = a.oper :=
    (ArpMessage.parts h).1.getElem (i := 7) (Nat.lt_succ_self 7)
  have hlow := hrequest.low
  rw [hoper, ha] at hlow
  exact absurd hlow (by decide)

section Answer

variable (mac : Vector UInt8 6) (myIP : Vector UInt8 4) (buf : Nat → UInt8) (len : Int)

/-- There is an answer exactly to the requests. -/
theorem processArp_answers_iff :
    (processArp mac myIP buf len).1 ≠ 0 ↔ ArpRequest myIP buf len := by
  by_cases h : ArpRequest myIP buf len
  · rw [processArp_request mac h]
    have hne : (28 : Int) ≠ 0 := by decide
    exact ⟨fun _ => h, fun _ => hne⟩
  · rw [processArp_other mac h]
    exact ⟨fun hne => absurd rfl hne, fun hrequest => absurd hrequest h⟩

/-- The answer is all that changes in the buffer. -/
theorem processArp_behind {i : Nat} (hi : 28 ≤ i) : (processArp mac myIP buf len).2 i = buf i := by
  by_cases h : ArpRequest myIP buf len
  · rw [processArp_request mac h]
    refine writeAt_outside buf 0 _ (Or.inr ?_)
    rw [ArpMessage.length_toBytes]
    exact hi
  · rw [processArp_other mac h]

variable {myIP buf len}

/-- The answer lies at the front of the buffer. -/
theorem processArp_holds (h : ArpRequest myIP buf len) :
    HoldsAt (processArp mac myIP buf len).2 0
      ((ArpMessage.ofBuffer buf).reply mac myIP).toBytes := by
  have hwritten : HoldsAt (writeAt buf 0 ((ArpMessage.ofBuffer buf).reply mac myIP).toBytes) 0
      ((ArpMessage.ofBuffer buf).reply mac myIP).toBytes := HoldsAt.written
  rwa [processArp_request mac h]

/-- Nobody answers to the 28 bytes of an answer. -/
theorem processArp_settles (h : ArpRequest myIP buf len) (mac' : Vector UInt8 6)
    (hisIP : Vector UInt8 4) {buf' : Nat → UInt8}
    (hcopy : HoldsAt buf' 0 (readAt (processArp mac myIP buf len).2 0 28)) (len' : Int) :
    processArp mac' hisIP buf' len' = (0, buf') := by
  have hbytes : readAt (processArp mac myIP buf len).2 0 28 =
      ((ArpMessage.ofBuffer buf).reply mac myIP).toBytes := by
    have hread := processArp_holds mac h
    unfold HoldsAt at hread
    rwa [ArpMessage.length_toBytes] at hread
  rw [hbytes] at hcopy
  exact processArp_reply rfl hcopy mac' hisIP len'

end Answer

/-- What a node answers, and how: whole requests for its address, with a message that binds the
address to its MAC address.  The rest of the buffer stays as it is, bytes that were not received do
not matter, and no node answers the reply. -/
theorem processArp_resolves (mac : Vector UInt8 6) (myIP : Vector UInt8 4) (buf : Nat → UInt8)
    (len : Nat) :
    ((processArp mac myIP buf len).1 ≠ 0 ↔ ArpRequest myIP buf len) ∧
      (ArpRequest myIP buf len → (processArp mac myIP buf len).1 = 28 ∧
        HoldsAt (processArp mac myIP buf len).2 0
          ((ArpMessage.ofBuffer buf).reply mac myIP).toBytes ∧
        ArpMessage.ofBuffer (processArp mac myIP buf len).2 =
          (ArpMessage.ofBuffer buf).reply mac myIP) ∧
      (∀ i, 28 ≤ i → (processArp mac myIP buf len).2 i = buf i) ∧
      (∀ buf' : Nat → UInt8, AgreeBelow len buf buf' →
        SameReply (processArp mac myIP buf len) (processArp mac myIP buf' len)) ∧
      (ArpRequest myIP buf len → ∀ (mac' : Vector UInt8 6) (hisIP : Vector UInt8 4)
        (buf' : Nat → UInt8) (len' : Int),
          HoldsAt buf' 0 (readAt (processArp mac myIP buf len).2 0 28) →
            processArp mac' hisIP buf' len' = (0, buf')) := by
  refine ⟨processArp_answers_iff mac myIP buf len, fun h => ?_,
    fun i hi => processArp_behind mac myIP buf len hi,
    fun buf' hagree => processArp_confined mac myIP hagree,
    fun h mac' hisIP buf' len' hcopy => processArp_settles mac h mac' hisIP hcopy len'⟩
  have hholds := processArp_holds mac h
  refine ⟨?_, hholds, ArpMessage.ofBuffer_eq hholds⟩
  rw [processArp_request mac h]

end Net
end WrpcSw
