import WrpcSw.Lib.LinkedList
import WrpcSw.Lib.Run

/-!
# The mini-IPC server (`ipc/minipc-mem-server.c`)

The exported procedures are in a linked list whose nodes come from a static array.  A
node is free when its `pd` field is NULL; `calloc` and `free` of the source work on that
field alone.

* `Pool` — list and array agree.
* `Pool.minipcExport`, `Pool.minipcUnexport`, `Pool.minipcServerAction` — what each call
  does to them.
* `exportTable` — the table that the list is meant to be.
-/

namespace WrpcSw
namespace Minipc

open LinkedList

/-! ## Data -/

/-- `MINIPC_MAX_EXPORT`. -/
def maxExport : Nat := 12

/-- `MPC_MAGIC`. -/
def mpcMagic : UInt32 := 0xc0ffee99

def enomem : Int := 12
def einval : Int := 22
def eopnotsupp : Int := 95

/-- The string that begins at these bytes. -/
def cString (bytes : List UInt8) : List UInt8 := bytes.takeWhile (fun b => b != 0)

/-- `MINIPC_ATYPE_ERROR` and `MINIPC_ATYPE_STRING`. -/
def atypeError : UInt32 := 0xffff
def atypeString : UInt32 := 4

/-- `__MINIPC_ARG_ENCODE`. -/
def minipcArgEncode (atype asize : UInt32) : UInt32 := (atype <<< 16) ||| asize

/-- `MINIPC_GET_ATYPE`. -/
def minipcGetAtype (word : UInt32) : UInt32 := word >>> 16

/-- What the server reads of a `struct minipc_pd`.  The function takes the arguments, the
result buffer and `errno`, and gives its return value, the buffer and `errno`. -/
structure MinipcPd where
  f : List UInt32 → List UInt8 → Int → Int × List UInt8 × Int
  name : List UInt8
  retval : UInt32

/-- `struct mpc_req_packet`. -/
structure MpcReqPacket where
  name : List UInt8
  args : List UInt32
deriving DecidableEq, Repr

/-- `struct mpc_rep_packet`. -/
structure MpcRepPacket where
  type : UInt32
  val : List UInt8
deriving DecidableEq, Repr

/-- The addresses where a `struct mpc_flist` can be: the entries of `__static_flist`, and the
frame of `minipc_unexport` with its parameter `pd`. -/
inductive FlistPtr
  | static (i : Fin maxExport)
  | frame
deriving DecidableEq, Repr

variable {Pd : Type}

/-- `struct mpc_flist`; the descriptors are known by their addresses. -/
structure MpcFlist (Pd : Type) where
  pd : Option Pd
  next : Option FlistPtr

/-- The link, the list nodes, `errno` and the reply of the shared memory. -/
structure Server (Pd : Type) where
  magic : UInt32
  pid : UInt32
  flist : Option FlistPtr
  node : FlistPtr → MpcFlist Pd
  errno : Int
  nreply : UInt32
  reply : MpcRepPacket

/-- The pointers of the nodes. -/
def Server.next (s : Server Pd) (p : FlistPtr) : Option FlistPtr := (s.node p).next

def Server.setNode (s : Server Pd) (p : FlistPtr) (flist : MpcFlist Pd) : Server Pd :=
  { s with node := Function.update s.node p flist }

/-! ## The node pool -/

/-- `calloc`: the first node that is free. -/
def Server.calloc (s : Server Pd) : Option (Fin maxExport) :=
  (List.finRange maxExport).find? fun i => (s.node (.static i)).pd.isNone

/-- `free`. -/
def Server.free (s : Server Pd) (p : FlistPtr) : Server Pd :=
  s.setNode p { s.node p with pd := none }

/-- `*nextp = p`. -/
def Server.store (s : Server Pd) (p : Option FlistPtr) : Cell FlistPtr → Server Pd
  | .head => { s with flist := p }
  | .next i => s.setNode i { s.node i with next := p }

/-- A bound on the length of a list of distinct nodes. -/
def maxNodes : Nat := maxExport + 1

/-- Look for the node and release it; fails if the loop does not end. -/
def Server.mpcFreeFlist (s : Server Pd) (flist : FlistPtr) : Option (Server Pd) :=
  (searchCell s.flist s.next flist maxNodes .head).map fun nextp =>
    match nextp.read s.flist s.next with
    | none => s
    | some _ => (s.store (s.next flist) nextp).free flist

/-! ## The calls -/

/-- `minipc_export`. -/
def Server.minipcExport (s : Server Pd) (pd : Pd) : Int × Server Pd :=
  if s.magic ≠ mpcMagic then (-1, { s with errno := einval })
  else
    match s.calloc with
    | none => (-1, { s with errno := enomem })
    | some i =>
        (0, { s with
          flist := some (.static i)
          node := Function.update s.node (.static i) ⟨some pd, s.flist⟩ })

section Calls

variable [DecidableEq Pd]

/-- `minipc_unexport`; fails if a loop does not end. -/
def Server.minipcUnexport (s : Server Pd) (pd : Pd) : Option (Int × Server Pd) :=
  if s.magic ≠ mpcMagic then some (-1, { s with errno := einval })
  else
    -- the parameter is where the `pd` field of a node at `frame` would be
    let s := s.setNode .frame { s.node .frame with pd := some pd }
    match search s.next (fun p => (s.node p).pd = some pd) maxNodes s.flist with
    | none => none
    | some none => some (-1, { s with errno := einval })
    | some (some _) =>
        -- flist = container_of(&pd, struct mpc_flist, pd)
        (s.mpcFreeFlist .frame).map fun s => (0, s)

variable (desc : Pd → MinipcPd)

/-- `strcmp(p_in->name, flist->pd->name)` is zero. -/
def named (name : List UInt8) (pd : Pd) : Bool := cString name = cString (desc pd).name

/-- `*(int *)(&p_out->val) = i`. -/
def putInt (i : Int) (val : List UInt8) : List UInt8 :=
  let word := UInt32.ofInt i
  [(word >>> 24).toUInt8, (word >>> 16).toUInt8, (word >>> 8).toUInt8, word.toUInt8] ++ val.drop 4

/-- What `minipc_server_action` does with the descriptor it found: the reply packet and
`errno`. -/
def serve (pIn : MpcReqPacket) (errno : Int) (pOut : MpcRepPacket) : Option Pd → MpcRepPacket × Int
  | none => (⟨minipcArgEncode atypeError 4, putInt eopnotsupp pOut.val⟩, errno)
  | some pd =>
      let (i, val, errno) := (desc pd).f pIn.args pOut.val errno
      if i < 0 then (⟨minipcArgEncode atypeError 4, putInt errno val⟩, errno)
      else if minipcGetAtype (desc pd).retval = atypeString then
        -- the return type is kept, the length is that of the string
        (⟨minipcArgEncode atypeString (UInt32.ofNat (((cString val).length + 1 + 3) / 4 * 4)), val⟩,
          errno)
      else (⟨(desc pd).retval, val⟩, errno)

/-- `minipc_server_action`, with the request counter and the request of the shared memory. -/
def Server.minipcServerAction (s : Server Pd) (nrequest : UInt32) (pIn : MpcReqPacket) :
    Option (Int × Server Pd) :=
  if s.magic ≠ mpcMagic then some (-1, { s with errno := einval })
  else if nrequest = s.pid then some (0, s)
  else
    let found := search s.next (fun p => (s.node p).pd.any (named desc pIn.name)) maxNodes s.flist
    found.map fun flist =>
      let answer := serve desc pIn s.errno s.reply (flist.bind fun p => (s.node p).pd)
      (0, { s with
        pid := nrequest
        reply := answer.1
        errno := answer.2
        nreply := s.nreply + 1 })

/-- The calls on an open channel. -/
inductive Call (Pd : Type)
  | minipcExport (pd : Pd)
  | minipcUnexport (pd : Pd)
  | minipcServerAction (nrequest : UInt32) (pIn : MpcReqPacket)

def Server.call (s : Server Pd) : Call Pd → Option (Int × Server Pd)
  | .minipcExport pd => some (s.minipcExport pd)
  | .minipcUnexport pd => s.minipcUnexport pd
  | .minipcServerAction nrequest pIn => s.minipcServerAction desc nrequest pIn

end Calls

/-! ## The agreement of list and pool -/

/-- The open server has the descriptors `live` in its list, in the nodes `nodes`; the other
nodes of the pool are free. -/
structure Pool (s : Server Pd) (nodes : List (Fin maxExport)) (live : List Pd) : Prop where
  magic : s.magic = mpcMagic
  linked : Linked s.next s.flist (nodes.map FlistPtr.static)
  pds : nodes.map (fun i => (s.node (.static i)).pd) = live.map some
  used : ∀ i, (s.node (.static i)).pd ≠ none ↔ i ∈ nodes

/-- The list of the server has the descriptors `live`. -/
def Server.Lists (s : Server Pd) (live : List Pd) : Prop :=
  ∃ ptrs, Linked s.next s.flist ptrs ∧ ptrs.map (fun p => (s.node p).pd) = live.map some

section PoolLemmas

variable {s : Server Pd} {nodes : List (Fin maxExport)} {live live' : List Pd} {pd : Pd}

@[simp] theorem setNode_node (s : Server Pd) (p : FlistPtr) (flist : MpcFlist Pd) :
    (s.setNode p flist).node = Function.update s.node p flist := rfl

@[simp] theorem setNode_flist (s : Server Pd) (p : FlistPtr) (flist : MpcFlist Pd) :
    (s.setNode p flist).flist = s.flist := rfl

theorem setNode_next (s : Server Pd) (p : FlistPtr) (flist : MpcFlist Pd) :
    (s.setNode p flist).next = Function.update s.next p flist.next := by
  funext q
  by_cases hq : q = p
  · subst hq
    simp [Server.next]
  · simp [Server.next, Function.update_of_ne hq]

theorem store_next (s : Server Pd) (p : Option FlistPtr) (c : Cell FlistPtr) :
    (s.store p c).next = (c.write s.flist s.next p).2 := by
  cases c with
  | head => rfl
  | next i => exact setNode_next ..

theorem store_flist (s : Server Pd) (p : Option FlistPtr) (c : Cell FlistPtr) :
    (s.store p c).flist = (c.write s.flist s.next p).1 := by
  cases c <;> rfl

/-- Storing a pointer leaves the descriptors where they are. -/
theorem store_pd (s : Server Pd) (p : Option FlistPtr) (c : Cell FlistPtr) (q : FlistPtr) :
    ((s.store p c).node q).pd = (s.node q).pd := by
  cases c with
  | head => rfl
  | next i =>
      show (Function.update s.node i _ q).pd = _
      by_cases hq : q = i
      · subst hq
        rw [Function.update_self]
      · rw [Function.update_of_ne hq]

theorem store_magic (s : Server Pd) (p : Option FlistPtr) (c : Cell FlistPtr) :
    (s.store p c).magic = s.magic := by
  cases c <;> rfl

theorem free_next (s : Server Pd) (p : FlistPtr) : (s.free p).next = s.next := by
  unfold Server.free
  rw [setNode_next]
  exact Function.update_eq_self p s.next

theorem free_pd_self (s : Server Pd) (p : FlistPtr) : ((s.free p).node p).pd = none := by
  simp [Server.free]

theorem free_pd_other (s : Server Pd) {p q : FlistPtr} (h : q ≠ p) :
    ((s.free p).node q).pd = (s.node q).pd := by
  simp [Server.free, Function.update_of_ne h]

theorem lists_unique (h : s.Lists live) (h' : s.Lists live') : live = live' := by
  obtain ⟨ptrs, hlinked, hpds⟩ := h
  obtain ⟨ptrs', hlinked', hpds'⟩ := h'
  obtain rfl := hlinked.unique hlinked'
  exact List.map_injective_iff.mpr (Option.some_injective Pd) (hpds.symm.trans hpds')

theorem Pool.lists (h : Pool s nodes live) : s.Lists live := by
  refine ⟨nodes.map FlistPtr.static, h.linked, ?_⟩
  rw [List.map_map]
  exact h.pds

theorem Pool.length_eq (h : Pool s nodes live) : nodes.length = live.length := by
  simpa using congrArg List.length h.pds

theorem Pool.nodup (h : Pool s nodes live) : nodes.Nodup := h.linked.nodup.of_map _

/-- There is a free node as long as fewer than `maxExport` descriptors are in the list. -/
theorem Pool.calloc_eq_none_iff (h : Pool s nodes live) :
    s.calloc = none ↔ ¬live.length < maxExport := by
  have hused : s.calloc = none ↔ ∀ i, i ∈ nodes := by
    unfold Server.calloc
    rw [List.find?_eq_none]
    constructor
    · intro hall i
      rw [← h.used]
      intro hnone
      exact hall i (List.mem_finRange i) (Option.isNone_iff_eq_none.mpr hnone)
    · intro hall i _ hnone
      exact (h.used i).mpr (hall i) (Option.isNone_iff_eq_none.mp hnone)
  rw [hused, ← h.length_eq]
  constructor
  · intro hall hlt
    have hcard := List.toFinset_card_of_nodup h.nodup
    rw [Finset.eq_univ_iff_forall.mpr (fun i => List.mem_toFinset.mpr (hall i)),
      Finset.card_univ, Fintype.card_fin] at hcard
    omega
  · intro hlen i
    have hcard : nodes.toFinset.card = Fintype.card (Fin maxExport) := by
      have hle := Finset.card_le_univ nodes.toFinset
      rw [Fintype.card_fin, List.toFinset_card_of_nodup h.nodup] at hle
      rw [Fintype.card_fin, List.toFinset_card_of_nodup h.nodup]
      omega
    exact List.mem_toFinset.mp (Finset.eq_univ_of_card _ hcard ▸ Finset.mem_univ i)

/-- `calloc` gives a node that is not in the list. -/
theorem Pool.calloc_notMem (h : Pool s nodes live) {i : Fin maxExport}
    (hi : s.calloc = some i) : i ∉ nodes := by
  have hnone : (s.node (.static i)).pd.isNone = true :=
    List.find?_some (p := fun i => (s.node (.static i)).pd.isNone) hi
  rw [← h.used, not_not]
  exact Option.isNone_iff_eq_none.mp hnone

/-- List and pool are in three fields. -/
theorem Pool.congr (h : Pool s nodes live) {s' : Server Pd} (hmagic : s'.magic = s.magic)
    (hflist : s'.flist = s.flist) (hnode : s'.node = s.node) : Pool s' nodes live := by
  have hnext : s'.next = s.next := by
    unfold Server.next
    rw [hnode]
  refine ⟨hmagic.trans h.magic, ?_, ?_, ?_⟩
  · rw [hnext, hflist]
    exact h.linked
  · rw [hnode]
    exact h.pds
  · rw [hnode]
    exact h.used

/-- A node that is not in the list does not matter to it. -/
theorem Pool.setFrame (h : Pool s nodes live) (flist : MpcFlist Pd) :
    Pool (s.setNode .frame flist) nodes live := by
  have hnode : ∀ i, (s.setNode .frame flist).node (.static i) = s.node (.static i) := fun i => by
    rw [setNode_node, Function.update_of_ne (by simp)]
  refine ⟨h.magic, ?_, ?_, ?_⟩
  · apply h.linked.congr
    intro p hp
    obtain ⟨i, -, rfl⟩ := List.mem_map.mp hp
    rw [setNode_next, Function.update_of_ne (by simp)]
  · simp only [hnode]
    exact h.pds
  · simp only [hnode]
    exact h.used

/-- A free node is put before the others. -/
theorem Pool.push (h : Pool s nodes live) {i : Fin maxExport} (hi : i ∉ nodes) (pd : Pd) :
    Pool { s with
        flist := some (.static i)
        node := Function.update s.node (.static i) ⟨some pd, s.flist⟩ }
      (i :: nodes) (pd :: live) := by
  have hself : (s.setNode (.static i) ⟨some pd, s.flist⟩).node (.static i) = ⟨some pd, s.flist⟩ :=
    Function.update_self ..
  have hother : ∀ j, j ≠ i → (s.setNode (.static i) ⟨some pd, s.flist⟩).node (.static j) =
      s.node (.static j) := by
    intro j hj
    exact Function.update_of_ne (fun heq => hj (FlistPtr.static.inj heq)) _ _
  refine ⟨h.magic, ?_, ?_, ?_⟩
  · show Linked (s.setNode (.static i) ⟨some pd, s.flist⟩).next _ _
    rw [setNode_next]
    apply h.linked.push
    simpa using hi
  · show (i :: nodes).map
      (fun j => ((s.setNode (.static i) ⟨some pd, s.flist⟩).node (.static j)).pd) = _
    rw [List.map_cons, List.map_cons, hself, ← h.pds]
    congr 1
    apply List.map_congr_left
    intro j hj
    rw [hother j (fun heq => hi (heq ▸ hj))]
  · intro j
    show ((s.setNode (.static i) ⟨some pd, s.flist⟩).node (.static j)).pd ≠ none ↔ _
    by_cases hj : j = i
    · subst hj
      simp [hself]
    · rw [hother j hj, h.used j]
      simp [hj]

/-- The call that puts a descriptor into the list fails if there is no node left. -/
theorem Pool.minipcExport (h : Pool s nodes live) (pd : Pd) :
    (live.length < maxExport ∧ ∃ i s', s.minipcExport pd = (0, s') ∧
        Pool s' (i :: nodes) (pd :: live)) ∨
      (¬live.length < maxExport ∧ ∃ s', s.minipcExport pd = (-1, s') ∧ Pool s' nodes live) := by
  have hmagic : ¬s.magic ≠ mpcMagic := not_not.mpr h.magic
  unfold Server.minipcExport
  rw [if_neg hmagic]
  cases hcalloc : s.calloc with
  | none =>
      exact Or.inr ⟨h.calloc_eq_none_iff.mp hcalloc, _, rfl, h.congr rfl rfl rfl⟩
  | some i =>
      refine Or.inl ⟨?_, i, _, rfl, h.push (h.calloc_notMem hcalloc) pd⟩
      by_contra hfull
      rw [h.calloc_eq_none_iff.mpr hfull] at hcalloc
      exact absurd hcalloc (by simp)

/-- The loops over the list end. -/
theorem Pool.length_le (h : Pool s nodes live) :
    (nodes.map FlistPtr.static).length ≤ maxNodes := by
  have hle := Finset.card_le_univ nodes.toFinset
  rw [List.toFinset_card_of_nodup h.nodup, Fintype.card_fin] at hle
  rw [List.length_map]
  exact hle.trans (Nat.le_succ _)

/-- The search for a descriptor finds the first one with the property. -/
theorem Pool.search (h : Pool s nodes live) (q : Pd → Bool) :
    ∃ found, LinkedList.search s.next (fun p => (s.node p).pd.any q) maxNodes s.flist =
        some found ∧
      found.bind (fun p => (s.node p).pd) = live.find? q ∧
      ∀ p, found = some p → (s.node p).pd.any q = true := by
  refine ⟨_, search_eq h.linked _ h.length_le, ?_,
    fun p hp => List.find?_some (p := fun p => (s.node p).pd.any q) hp⟩
  have hpds := h.pds
  clear h
  induction nodes generalizing live with
  | nil =>
      obtain rfl : live = [] := by simpa using hpds
      rfl
  | cons i nodes ih =>
      cases live with
      | nil => exact absurd hpds (by simp)
      | cons pd live =>
          rw [List.map_cons, List.map_cons, List.cons.injEq] at hpds
          rw [List.map_cons, List.find?_cons, List.find?_cons, hpds.1, Option.any_some]
          cases hq : q pd with
          | true => exact hpds.1
          | false => exact ih hpds.2

/-- The frame of `minipc_unexport` is never in the list, so that nothing is released. -/
theorem Pool.mpcFreeFlist_frame (h : Pool s nodes live) : s.mpcFreeFlist .frame = some s := by
  have hnot : FlistPtr.frame ∉ nodes.map FlistPtr.static := by simp
  obtain ⟨hsearch, hread⟩ :=
    searchCell_of_notMem (c := .head) h.linked hnot h.length_le
  unfold Server.mpcFreeFlist
  rw [hsearch, Option.map_some, hread]

/-- The release of a node that is in the list takes it out, and the node is free. -/
theorem Pool.mpcFreeFlist_static {before after : List (Fin maxExport)} {i : Fin maxExport}
    (h : Pool s (before ++ i :: after) live) :
    ∃ s', s.mpcFreeFlist (.static i) = some s' ∧
      Pool s' (before ++ after) (live.eraseIdx before.length) := by
  have hlinked := h.linked
  rw [List.map_append, List.map_cons] at hlinked
  have hdisjoint : i ∉ before ++ after :=
    (List.nodup_cons.mp ((List.perm_middle).nodup_iff.mp h.nodup)).1
  rw [List.mem_append, not_or] at hdisjoint
  have hnot : FlistPtr.static i ∉ before.map FlistPtr.static := by simpa using hdisjoint.1
  have hlen := h.length_le
  rw [List.map_append, List.length_append] at hlen
  obtain ⟨hsearch, hread⟩ := searchCell_of_mem (c := .head) hlinked hnot (n := maxNodes) (by omega)
  unfold Server.mpcFreeFlist
  rw [hsearch, Option.map_some, hread]
  refine ⟨_, rfl, ?_, ?_, ?_, ?_⟩
  · show (Server.store _ _ _).magic = _
    rw [store_magic]
    exact h.magic
  · rw [free_next, store_next]
    show Linked _ (Server.store _ _ _).flist _
    rw [store_flist, List.map_append]
    exact hlinked.unlink
  · have hpds := congrArg (List.eraseIdx · before.length) h.pds
    simp only [List.map_append, List.map_cons] at hpds
    rw [List.eraseIdx_append_of_length_le (by simp)] at hpds
    simp only [List.length_map, Nat.sub_self, List.eraseIdx_cons_zero] at hpds
    rw [← List.map_append] at hpds
    rw [List.eraseIdx_map] at hpds
    rw [← hpds]
    apply List.map_congr_left
    intro j hj
    rw [free_pd_other, store_pd]
    rintro heq
    obtain rfl := FlistPtr.static.inj heq
    exact (List.mem_append.mp hj).elim hdisjoint.1 hdisjoint.2
  · intro j
    by_cases hj : j = i
    · subst hj
      rw [free_pd_self, List.mem_append]
      simpa using hdisjoint
    · rw [free_pd_other _ (fun heq => hj (FlistPtr.static.inj heq)), store_pd, h.used j]
      simp [hj]

variable [DecidableEq Pd]

/-- The call that should take a descriptor out of the list leaves everything as it is. -/
theorem Pool.minipcUnexport (h : Pool s nodes live) (pd : Pd) :
    ∃ s', s.minipcUnexport pd = some (if pd ∈ live then 0 else -1, s') ∧ Pool s' nodes live := by
  have hmagic : ¬s.magic ≠ mpcMagic := not_not.mpr h.magic
  have hframe := h.setFrame { s.node .frame with pd := some pd }
  obtain ⟨found, hsearch, hfound, hpd⟩ := hframe.search (fun pd' => pd' = pd)
  have htest : (fun p =>
      decide (((s.setNode .frame { s.node .frame with pd := some pd }).node p).pd = some pd)) =
      fun p => ((s.setNode .frame { s.node .frame with pd := some pd }).node p).pd.any
        (fun pd' => pd' = pd) := by
    funext p
    cases ((s.setNode .frame { s.node .frame with pd := some pd }).node p).pd <;> simp
  unfold Server.minipcUnexport
  rw [if_neg hmagic]
  simp only [htest, hsearch]
  cases found with
  | none =>
      have hnot : pd ∉ live := by
        intro hmem
        have hnone := List.find?_eq_none.mp hfound.symm pd hmem
        simp at hnone
      rw [if_neg hnot]
      exact ⟨_, rfl, hframe.congr rfl rfl rfl⟩
  | some p =>
      have hmem : pd ∈ live := by
        obtain ⟨pd', hnode, heq⟩ := (Option.any_eq_true _ _).mp (hpd p rfl)
        obtain rfl : pd' = pd := of_decide_eq_true heq
        rw [Option.bind_some, hnode] at hfound
        exact List.mem_of_find?_eq_some hfound.symm
      rw [if_pos hmem, hframe.mpcFreeFlist_frame]
      exact ⟨_, rfl, hframe⟩

omit [DecidableEq Pd] in
/-- The request is served by the first descriptor of the list that has the name. -/
theorem Pool.minipcServerAction (h : Pool s nodes live) (desc : Pd → MinipcPd) (nrequest : UInt32)
    (pIn : MpcReqPacket) :
    ∃ s', s.minipcServerAction desc nrequest pIn = some (0, s') ∧ Pool s' nodes live ∧
      (nrequest = s.pid → s' = s) ∧
      (nrequest ≠ s.pid → s'.pid = nrequest ∧ s'.nreply = s.nreply + 1 ∧
        (s'.reply, s'.errno) =
          serve desc pIn s.errno s.reply (live.find? (named desc pIn.name))) := by
  have hmagic : ¬s.magic ≠ mpcMagic := not_not.mpr h.magic
  unfold Server.minipcServerAction
  rw [if_neg hmagic]
  by_cases hpid : nrequest = s.pid
  · rw [if_pos hpid]
    exact ⟨s, rfl, h, fun _ => rfl, fun hne => absurd hpid hne⟩
  · obtain ⟨found, hsearch, hfound, -⟩ := h.search (named desc pIn.name)
    rw [if_neg hpid, hsearch, Option.map_some, hfound]
    exact ⟨_, rfl, h.congr rfl rfl rfl, fun heq => absurd heq hpid, fun _ => ⟨rfl, rfl, rfl⟩⟩

end PoolLemmas

/-! ## The table of exported descriptors -/

section Table

variable [DecidableEq Pd] (desc : Pd → MinipcPd)

/-- What the calls are for: the return value of each, and the exported descriptors after it,
most recent first. -/
def exportTable (live : List Pd) : Call Pd → Int × List Pd
  | .minipcExport pd => if live.length < maxExport then (0, pd :: live) else (-1, live)
  | .minipcUnexport pd => if pd ∈ live then (0, live.erase pd) else (-1, live)
  | .minipcServerAction _ _ => (0, live)

/-- The server and the table over the same calls; a server that does not return is lost. -/
def both (t : Option (Server Pd) × List Pd) (c : Call Pd) : Option (Server Pd) × List Pd :=
  (t.1.bind fun s => (s.call desc c).map Prod.snd, (exportTable t.2 c).2)

/-- The call returns what it does on the table and the list of the server is the table
afterwards; a new request is served by the most recently exported descriptor of its name. -/
def Exact (t : Option (Server Pd) × List Pd) (c : Call Pd) : Prop :=
  ∃ s s', t.1 = some s ∧ s.call desc c = some ((exportTable t.2 c).1, s') ∧
    s'.Lists (exportTable t.2 c).2 ∧
    ∀ nrequest pIn, c = .minipcServerAction nrequest pIn → nrequest ≠ s.pid →
      s'.pid = nrequest ∧ s'.nreply = s.nreply + 1 ∧
        (s'.reply, s'.errno) =
          serve desc pIn s.errno s.reply (t.2.find? (named desc pIn.name))

/-- No descriptor is unexported while it is exported. -/
def NotExported (t : Option (Server Pd) × List Pd) (c : Call Pd) : Prop :=
  ∀ pd, c = .minipcUnexport pd → pd ∉ t.2

/-- The server as `minipc_server_create` leaves it: open, with nothing exported. -/
structure Opened (s : Server Pd) : Prop where
  magic : s.magic = mpcMagic
  flist : s.flist = none
  pds : ∀ i, (s.node (.static i)).pd = none

/-- The invariant of the pair. -/
def Agree (t : Option (Server Pd) × List Pd) : Prop :=
  ∃ s nodes, t.1 = some s ∧ Pool s nodes t.2

omit [DecidableEq Pd] in
theorem Opened.agree {s : Server Pd} (h : Opened s) : Agree (some s, ([] : List Pd)) := by
  refine ⟨s, [], rfl, h.magic, h.flist, rfl, ?_⟩
  simp [h.pds]

/-- A call that does what it does on the table. -/
theorem exact_of_call {s s' : Server Pd} {live live' : List Pd} {c : Call Pd} {r : Int}
    (htable : exportTable live c = (r, live')) (hcall : s.call desc c = some (r, s'))
    {nodes : List (Fin maxExport)} (hpool : Pool s' nodes live')
    (hserve : ∀ nrequest pIn, c = .minipcServerAction nrequest pIn → nrequest ≠ s.pid →
      s'.pid = nrequest ∧ s'.nreply = s.nreply + 1 ∧
        (s'.reply, s'.errno) =
          serve desc pIn s.errno s.reply (live.find? (named desc pIn.name))) :
    Exact desc (some s, live) c ∧ Agree (both desc (some s, live) c) := by
  have hr : (exportTable live c).1 = r := congrArg Prod.fst htable
  have hlive : (exportTable live c).2 = live' := congrArg Prod.snd htable
  constructor
  · refine ⟨s, s', rfl, ?_, ?_, hserve⟩
    · rw [hr]
      exact hcall
    · rw [hlive]
      exact hpool.lists
  · refine ⟨s', nodes, ?_, ?_⟩
    · simp only [both, Option.bind_some, hcall, Option.map_some]
    · show Pool s' nodes (exportTable live c).2
      rw [hlive]
      exact hpool

/-- All calls but a successful unexport do what they do on the table. -/
theorem Agree.exact {t : Option (Server Pd) × List Pd} (h : Agree t) {c : Call Pd}
    (hc : NotExported t c) : Exact desc t c ∧ Agree (both desc t c) := by
  obtain ⟨s?, live⟩ := t
  obtain ⟨s, nodes, rfl, hpool⟩ := h
  cases c with
  | minipcExport pd =>
      rcases hpool.minipcExport pd with ⟨hlt, i, s', hcall, hpool'⟩ | ⟨hfull, s', hcall, hpool'⟩
      · exact exact_of_call desc (if_pos hlt) (congrArg some hcall) hpool'
          (fun _ _ heq => absurd heq (by simp))
      · exact exact_of_call desc (if_neg hfull) (congrArg some hcall) hpool'
          (fun _ _ heq => absurd heq (by simp))
  | minipcUnexport pd =>
      have hnot : pd ∉ live := hc pd rfl
      obtain ⟨s', hcall, hpool'⟩ := hpool.minipcUnexport pd
      rw [if_neg hnot] at hcall
      exact exact_of_call desc (if_neg hnot) hcall hpool' (fun _ _ heq => absurd heq (by simp))
  | minipcServerAction nrequest pIn =>
      obtain ⟨s', hcall, hpool', -, hserve⟩ := hpool.minipcServerAction desc nrequest pIn
      have hstep : s.call desc (.minipcServerAction nrequest pIn) = some (0, s') := hcall
      apply exact_of_call desc rfl hstep hpool'
      intro nrequest' pIn' heq hpid
      obtain ⟨rfl, rfl⟩ := Call.minipcServerAction.inj heq
      exact hserve hpid

/-- After a successful unexport the list still has the descriptor. -/
theorem Agree.notExported {t : Option (Server Pd) × List Pd} (h : Agree t) {c : Call Pd}
    (hexact : Exact desc t c) : NotExported t c := by
  obtain ⟨s?, live⟩ := t
  obtain ⟨s, nodes, rfl, hpool⟩ := h
  rintro pd rfl hmem
  change pd ∈ live at hmem
  obtain ⟨s₀, s', hs, hcall, hlists, -⟩ := hexact
  obtain rfl := Option.some.inj hs
  obtain ⟨s'', hcall', hpool'⟩ := hpool.minipcUnexport pd
  obtain ⟨-, rfl⟩ := Prod.mk.inj (Option.some.inj (hcall.symm.trans hcall'))
  have hlive : live = (exportTable live (.minipcUnexport pd)).2 := lists_unique hpool'.lists hlists
  rw [exportTable, if_pos hmem] at hlive
  have hlen := congrArg List.length hlive
  have hpos := List.length_pos_of_mem hmem
  rw [List.length_erase_of_mem hmem] at hlen
  omega

/-- From an open server on, the export table is exact as long as no descriptor is unexported
while it is exported. -/
theorem exportTable_exact_iff {s : Server Pd} (hs : Opened s) (calls : List (Call Pd)) :
    Run.Along (both desc) (Exact desc) (some s, []) calls ↔
      Run.Along (both desc) NotExported (some s, []) calls :=
  Run.along_iff_of_invariant Agree (fun _ _ h hc => (h.exact desc hc).2)
    (fun _ _ h => ⟨h.notExported desc, fun hc => (h.exact desc hc).1⟩) hs.agree calls

end Table

section Booted

/-- The server after `minipc_server_create` at boot. -/
def booted : Server Nat where
  magic := mpcMagic
  pid := 0
  flist := none
  node := fun _ => ⟨none, none⟩
  errno := 0
  nreply := 0
  reply := ⟨0, []⟩

theorem booted_opened : Opened booted := ⟨rfl, rfl, fun _ => rfl⟩

/-- Descriptors with one letter as the name. -/
def letterDesc (pd : Nat) : MinipcPd where
  f := fun _ val errno => (0, val, errno)
  name := [UInt8.ofNat pd]
  retval := minipcArgEncode 1 4

/-- Two descriptors exported, one of them twice, one that was never exported unexported, and a
request. -/
theorem exportTable_exact_twice :
    Run.Along (both letterDesc) (Exact letterDesc) (some booted, [])
      [.minipcExport 97, .minipcExport 98, .minipcExport 97, .minipcUnexport 99,
        .minipcServerAction 1 ⟨[97, 0], []⟩] := by
  refine (exportTable_exact_iff letterDesc booted_opened _).mpr ?_
  simp [Run.Along, NotExported, both, exportTable, maxExport]

/-- A descriptor that is exported and unexported stays in the list. -/
theorem exportTable_keeps :
    ¬∀ (s : Server Nat) (calls : List (Call Nat)), Opened s →
      Run.Along (both letterDesc) (Exact letterDesc) (some s, []) calls := by
  intro hall
  obtain ⟨-, hunexport, -⟩ := hall booted [.minipcExport 97, .minipcUnexport 97] booted_opened
  have hfirst : NotExported (some booted, []) (.minipcExport 97) :=
    fun _ heq => absurd heq (by simp)
  have hagree := (booted_opened.agree.exact letterDesc hfirst).2
  exact hagree.notExported letterDesc hunexport 97 rfl (List.mem_singleton_self 97)

end Booted

end Minipc
end WrpcSw
