import Mathlib

/-!
# The delayed frees of the memory service

With the poison check on, the memory service (`mpp_mem.c`) keeps a freed block for a while,
to find writes to it. The nodes of the blocks go round the table `frees`; when the table is
full, a free gives one of them back for its real release (`delayDelNode`).

The index moves on *before* the node is stored, so that it stands at the block freed last,
not at the one freed first. In a full table this is the one given back, and the node stored
next overwrites another one that is not. Nothing is lost as long as the table is not
overrun: the frees are pending in order exactly up to as many as it has slots
(`pendingInOrder_iff`).
-/

namespace Libmpp.Osal

open List Option

/-- A block of memory. Its node is valid when the index is not negative. -/
structure MppMemNode where
  index : ℤ
  size : UInt64
  ptr : UInt64
  deriving DecidableEq, Repr

def MppMemNode.Valid (node : MppMemNode) : Bool := 0 ≤ node.index

/-- A node is invalidated by the complement of its index. -/
def MppMemNode.invalidate (node : MppMemNode) : MppMemNode := { node with index := ~~~node.index }

structure MppMemSrv where
  nodesMax : ℕ
  nodesIdx : ℕ
  nodesCnt : ℤ
  freesMax : ℕ
  freesIdx : ℕ
  freesCnt : ℕ
  nodes : List MppMemNode
  frees : List MppMemNode
  totalSize : UInt32
  totalMax : UInt32
  deriving DecidableEq, Repr

def memFreeMax : ℕ := 512

/-- A node of a table filled with `0xff`. -/
def blankNode : MppMemNode := ⟨-1, -1, -1⟩

def mppMemSrvInit (nodesMax : ℕ) : MppMemSrv where
  nodesMax
  nodesIdx := 0
  nodesCnt := 0
  freesMax := memFreeMax
  freesIdx := 0
  freesCnt := 0
  nodes := List.replicate nodesMax blankNode
  frees := List.replicate memFreeMax blankNode
  totalSize := 0
  totalMax := 0

/-- The node of the block at `ptr`. -/
def MppMemSrv.find (srv : MppMemSrv) (ptr : UInt64) : Option ℕ :=
  srv.nodes.findIdx? fun node => node.Valid && node.ptr == ptr

def addNode (srv : MppMemSrv) (ptr size : UInt64) : MppMemSrv :=
  match srv.nodes.findIdx? fun node => !node.Valid with
  | none => srv
  | some i =>
    let totalSize := srv.totalSize + size.toUInt32
    { srv with
      nodes := srv.nodes.set i ⟨srv.nodesIdx, size, ptr⟩
      nodesIdx := if srv.nodesIdx + 1 = 2 ^ 31 then 0 else srv.nodesIdx + 1
      nodesCnt := srv.nodesCnt + 1
      totalSize
      totalMax := if totalSize > srv.totalMax then totalSize else srv.totalMax }

/-- A block has been moved to `ret`. -/
def resetNode (srv : MppMemSrv) (ptr ret size : UInt64) : MppMemSrv :=
  match srv.find ptr with
  | none => srv
  | some i =>
    match srv.nodes[i]? with
    | none => srv
    | some node =>
      { srv with
        totalSize := srv.totalSize + size.toUInt32 - node.size.toUInt32
        nodes := srv.nodes.set i { node with ptr := ret, size } }

/-- Give back a node of a full table, and the size of its block. -/
def releaseLast (srv : MppMemSrv) : Option (MppMemSrv × Option UInt64 × UInt64) :=
  if srv.freesCnt ≥ srv.freesMax then do
    let freesLast : ℤ := srv.freesIdx - srv.freesCnt
    let freesLast := if freesLast < 0 then freesLast + srv.freesMax else freesLast
    let freeNode ← srv.frees[freesLast.toNat]?
    if freeNode.Valid then
      some ({ srv with
        frees := srv.frees.set freesLast.toNat freeNode.invalidate
        freesCnt := srv.freesCnt - 1 }, some freeNode.ptr, freeNode.size)
    else some (srv, none, 0)
  else some (srv, none, 0)

/-- Store a node in the table, behind the slot of the index. -/
def storeNode (srv : MppMemSrv) (node : MppMemNode) : Option MppMemSrv :=
  let freesIdx := if srv.freesIdx + 1 ≥ srv.freesMax then 0 else srv.freesIdx + 1
  if freesIdx < srv.frees.length then
    some { srv with
      freesIdx
      freesCnt := if srv.freesCnt < srv.freesMax then srv.freesCnt + 1 else srv.freesCnt
      frees := srv.frees.set freesIdx node }
  else none

/-- Free the block at `ptr`: what is given back for its real release, and the size of it.
    A block without a node is not found, and the search ends behind the table. -/
def delayDelNode (srv : MppMemSrv) (ptr : UInt64) :
    Option (MppMemSrv × Option UInt64 × UInt64) := do
  let i ← srv.find ptr
  let node ← srv.nodes[i]?
  let (srv, ret, size) ← releaseLast srv
  let srv ← storeNode srv node
  some ({ srv with
    nodes := srv.nodes.set i node.invalidate
    totalSize := srv.totalSize - node.size.toUInt32
    nodesCnt := srv.nodesCnt - 1 }, ret, size)

/-! ## Runs -/

inductive MemOp
  | malloc (ptr size : UInt64)
  | realloc (ptr ret size : UInt64)
  | free (ptr : UInt64)
  deriving DecidableEq, Repr

/-- A service, with the blocks handed in to be freed and those given back, in order. -/
structure MemRun where
  srv : MppMemSrv
  handed : List UInt64
  released : List UInt64
  deriving DecidableEq, Repr

def MemRun.step (r : MemRun) : MemOp → Option MemRun
  | .malloc ptr size => some { r with srv := addNode r.srv ptr size }
  | .realloc ptr ret size => some { r with srv := resetNode r.srv ptr ret size }
  | .free ptr => do
    let (srv, ret, _) ← delayDelNode r.srv ptr
    some ⟨srv, r.handed ++ [ptr], r.released ++ ret.toList⟩

def MemRun.init (nodesMax : ℕ) : MemRun := ⟨mppMemSrvInit nodesMax, [], []⟩

/-- The blocks of the table. -/
def MppMemSrv.pending (srv : MppMemSrv) : List UInt64 :=
  (srv.frees.filter (·.Valid)).map (·.ptr)

/-- The blocks are given back in the order they are handed in, each once, and those not yet
    given back are in the table: no more than it has slots, and none of them overwritten. -/
def MemRun.PendingInOrder (r : MemRun) : Prop :=
  ∃ rest, r.handed = r.released ++ rest ∧ r.srv.pending.Perm rest ∧ rest.length ≤ r.srv.freesMax

/-! ## One free -/

variable {node : MppMemNode}

theorem invalidate_valid (h : node.Valid) : node.invalidate.Valid = false := by
  obtain ⟨n, hn⟩ := Int.eq_ofNat_of_zero_le (of_decide_eq_true h)
  refine decide_eq_false (not_le.2 ?_)
  rw [MppMemNode.invalidate, hn]
  exact Int.negSucc_lt_zero n

variable {srv : MppMemSrv}

/-- Where there is room, nothing is given back. -/
theorem releaseLast_of_lt (h : srv.freesCnt < srv.freesMax) :
    releaseLast srv = some (srv, none, 0) :=
  if_neg (not_le.2 h)

/-- A full table gives back the node of the index. -/
theorem releaseLast_of_full (hcnt : srv.freesCnt = srv.freesMax)
    (hidx : srv.freesIdx < srv.freesMax) (hnode : srv.frees[srv.freesIdx]? = some node)
    (hvalid : node.Valid) :
    releaseLast srv = some ({ srv with
      frees := srv.frees.set srv.freesIdx node.invalidate
      freesCnt := srv.freesCnt - 1 }, some node.ptr, node.size) := by
  have hlast : ((if (srv.freesIdx : ℤ) - srv.freesCnt < 0 then
      (srv.freesIdx : ℤ) - srv.freesCnt + srv.freesMax else
        (srv.freesIdx : ℤ) - srv.freesCnt)).toNat = srv.freesIdx := by
    rw [if_pos (by omega), hcnt, sub_add_cancel, Int.toNat_natCast]
  rw [releaseLast, if_pos hcnt.ge]
  dsimp only
  rw [hlast, hnode, bind_eq_bind, bind_some, if_pos hvalid]

/-- The node is stored behind the index, and the index is at it. -/
theorem storeNode_eq (hlen : srv.frees.length = srv.freesMax) (hidx : srv.freesIdx < srv.freesMax)
    (hcnt : srv.freesCnt < srv.freesMax) (node : MppMemNode) :
    storeNode srv node = some { srv with
      freesIdx := (srv.freesIdx + 1) % srv.freesMax
      freesCnt := srv.freesCnt + 1
      frees := srv.frees.set ((srv.freesIdx + 1) % srv.freesMax) node } := by
  have hnext : (if srv.freesIdx + 1 ≥ srv.freesMax then 0 else srv.freesIdx + 1) =
      (srv.freesIdx + 1) % srv.freesMax := by
    split_ifs with h
    · have hend : srv.freesIdx + 1 = srv.freesMax := le_antisymm hidx h
      rw [hend, Nat.mod_self]
    · exact (Nat.mod_eq_of_lt (not_le.1 h)).symm
  have hslot : (srv.freesIdx + 1) % srv.freesMax < srv.frees.length := by
    rw [hlen]
    exact Nat.mod_lt _ (Nat.zero_lt_of_lt hidx)
  rw [storeNode, hnext, if_pos hslot, if_pos hcnt]

variable {ptr : UInt64} {i : ℕ}

/-- A node found is a valid one of the block. -/
theorem find_eq_some (hi : srv.find ptr = some i) (hnode : srv.nodes[i]? = some node) :
    node.Valid ∧ node.ptr = ptr := by
  obtain ⟨hlt, hp, -⟩ := findIdx?_eq_some_iff_getElem.1 hi
  obtain ⟨-, rfl⟩ := List.getElem?_eq_some_iff.1 hnode
  rwa [Bool.and_eq_true, beq_iff_eq] at hp

variable {r r' : MemRun}

/-- What a free does to the table. -/
theorem free_eq_some (h : r.step (.free ptr) = some r') :
    ∃ node srv₁ ret size srv₂, node.Valid ∧ node.ptr = ptr ∧
      releaseLast r.srv = some (srv₁, ret, size) ∧ storeNode srv₁ node = some srv₂ ∧
      r'.srv.frees = srv₂.frees ∧ r'.srv.freesIdx = srv₂.freesIdx ∧
      r'.srv.freesCnt = srv₂.freesCnt ∧ r'.srv.freesMax = srv₂.freesMax ∧
      r'.handed = r.handed ++ [ptr] ∧ r'.released = r.released ++ ret.toList := by
  simp only [MemRun.step, delayDelNode, bind_eq_bind, bind_eq_some_iff] at h
  obtain ⟨⟨srv', ret', size'⟩, ⟨i, hi, node, hnode, ⟨srv₁, ret, size⟩, hrel, srv₂, hstore, heq⟩,
    h⟩ := h
  simp only [some.injEq, Prod.mk.injEq] at heq
  obtain ⟨rfl, rfl, rfl⟩ := heq
  obtain rfl := some_inj.1 h
  obtain ⟨hvalid, hptr⟩ := find_eq_some hi hnode
  exact ⟨node, srv₁, ret, size, srv₂, hvalid, hptr, hrel, hstore, rfl, rfl, rfl, rfl, rfl, rfl⟩

/-- Blocks that are allocated or moved leave the table. -/
theorem step_frees {op : MemOp} (h : r.step op = some r') (hop : ∀ ptr, op ≠ .free ptr) :
    r'.srv.frees = r.srv.frees ∧ r'.srv.freesIdx = r.srv.freesIdx ∧
      r'.srv.freesCnt = r.srv.freesCnt ∧ r'.srv.freesMax = r.srv.freesMax ∧
      r'.handed = r.handed ∧ r'.released = r.released := by
  cases op with
  | malloc ptr size =>
    obtain rfl := some_inj.1 h
    dsimp only [addNode]
    split <;> exact ⟨rfl, rfl, rfl, rfl, rfl, rfl⟩
  | realloc ptr ret size =>
    obtain rfl := some_inj.1 h
    dsimp only [resetNode]
    split
    · exact ⟨rfl, rfl, rfl, rfl, rfl, rfl⟩
    · split <;> exact ⟨rfl, rfl, rfl, rfl, rfl, rfl⟩
  | free ptr => exact absurd rfl (hop ptr)

/-! ## A slot of the table -/

/-- The slot `j` of the table holds a node that is valid, or one that is not. -/
def SlotValid (frees : List MppMemNode) (j : ℕ) (valid : Bool) : Prop :=
  ∃ node, frees[j]? = some node ∧ node.Valid = valid

variable {frees : List MppMemNode}

theorem SlotValid.set_of_ne {j : ℕ} {valid : Bool} (h : SlotValid frees j valid) (hne : i ≠ j)
    (node : MppMemNode) : SlotValid (frees.set i node) j valid := by
  obtain ⟨old, hold, hvalid⟩ := h
  exact ⟨old, by rwa [getElem?_set_ne hne], hvalid⟩

theorem slotValid_set (h : i < frees.length) (node : MppMemNode) :
    SlotValid (frees.set i node) i node.Valid :=
  ⟨node, getElem?_set_self h, rfl⟩

/-- A node stored in a slot without one joins those of the table. -/
theorem filter_set_perm (h : SlotValid frees i false) (hnode : node.Valid) :
    ((frees.set i node).filter (·.Valid)).Perm (node :: frees.filter (·.Valid)) := by
  obtain ⟨old, hold, hvalid⟩ := h
  obtain ⟨hlt, rfl⟩ := List.getElem?_eq_some_iff.1 hold
  have hsplit : frees.filter (·.Valid) =
      (frees.take i).filter (·.Valid) ++ (frees.drop (i + 1)).filter (·.Valid) := by
    conv_lhs => rw [← take_append_drop i frees, drop_eq_getElem_cons hlt]
    rw [filter_append, filter_cons_of_neg (by rw [hvalid]; decide)]
  rw [set_eq_take_append_cons_drop, if_pos hlt, filter_append,
    filter_cons_of_pos hnode, hsplit]
  exact perm_middle

/-- With a slot without a node the table is not full. -/
theorem pending_length_lt {j : ℕ} (h : SlotValid srv.frees j false) :
    srv.pending.length < srv.frees.length := by
  obtain ⟨node, hnode, hvalid⟩ := h
  rw [MppMemSrv.pending, length_map]
  exact length_filter_lt_length_iff_exists.2
    ⟨node, mem_of_getElem? hnode, by rw [hvalid]; decide⟩

/-! ## The table before and after it is overrun -/

/-- No more blocks have been handed in than there are slots: they fill the table from its
    slot `1` on, and the slot `0` comes last. -/
structure Filling (r : MemRun) : Prop where
  max : r.srv.freesMax = memFreeMax
  length : r.srv.frees.length = memFreeMax
  le : r.handed.length ≤ memFreeMax
  cnt : r.srv.freesCnt = r.handed.length
  idx : r.srv.freesIdx = r.handed.length % memFreeMax
  last : r.handed ≠ [] → SlotValid r.srv.frees r.srv.freesIdx true
  room : r.handed.length < memFreeMax → ∀ j < memFreeMax, j = 0 ∨ r.handed.length < j →
    SlotValid r.srv.frees j false
  pending : r.srv.pending.Perm r.handed
  released : r.released = []

/-- More blocks have been handed in: the table counts as full, and is not. -/
structure Overrun (r : MemRun) : Prop where
  max : r.srv.freesMax = memFreeMax
  length : r.srv.frees.length = memFreeMax
  cnt : r.srv.freesCnt = memFreeMax
  idx : r.srv.freesIdx < memFreeMax
  last : SlotValid r.srv.frees r.srv.freesIdx true
  gone : ∃ j, SlotValid r.srv.frees j false
  handed : r.handed.length = r.released.length + memFreeMax
  released : r.released ≠ []

/-- Nothing else than the table is looked at. -/
theorem Filling.congr (h : Filling r) (hfrees : r'.srv.frees = r.srv.frees)
    (hidx : r'.srv.freesIdx = r.srv.freesIdx) (hcnt : r'.srv.freesCnt = r.srv.freesCnt)
    (hmax : r'.srv.freesMax = r.srv.freesMax) (hhanded : r'.handed = r.handed)
    (hreleased : r'.released = r.released) : Filling r' := by
  refine ⟨hmax ▸ h.max, hfrees ▸ h.length, hhanded ▸ h.le, ?_, ?_, ?_, ?_, ?_,
    hreleased ▸ h.released⟩
  · rw [hcnt, hhanded, h.cnt]
  · rw [hidx, hhanded, h.idx]
  · rw [hfrees, hidx, hhanded]
    exact h.last
  · rw [hfrees, hhanded]
    exact h.room
  · rw [MppMemSrv.pending, hfrees, hhanded]
    exact h.pending

theorem Overrun.congr (h : Overrun r) (hfrees : r'.srv.frees = r.srv.frees)
    (hidx : r'.srv.freesIdx = r.srv.freesIdx) (hcnt : r'.srv.freesCnt = r.srv.freesCnt)
    (hmax : r'.srv.freesMax = r.srv.freesMax) (hhanded : r'.handed = r.handed)
    (hreleased : r'.released = r.released) : Overrun r' := by
  refine ⟨hmax ▸ h.max, hfrees ▸ h.length, hcnt ▸ h.cnt, hidx ▸ h.idx, ?_, ?_, ?_,
    hreleased ▸ h.released⟩
  · rw [hfrees, hidx]
    exact h.last
  · rw [hfrees]
    exact h.gone
  · rw [hhanded, hreleased]
    exact h.handed

theorem filling_init (nodesMax : ℕ) : Filling (MemRun.init nodesMax) := by
  refine ⟨rfl, length_replicate, Nat.zero_le _, rfl, rfl, absurd rfl, fun _ j hj _ => ?_, ?_,
    rfl⟩
  · exact ⟨blankNode, getElem?_replicate_of_lt hj, rfl⟩
  · have hnone : (List.replicate memFreeMax blankNode).filter (·.Valid) = [] :=
      filter_eq_nil_iff.2 fun node hnode => by
        rw [eq_of_mem_replicate hnode]
        decide
    rw [MppMemSrv.pending, MemRun.init, mppMemSrvInit, hnone]
    exact List.Perm.nil

/-- A free into a table with room: its node goes to a slot without one. -/
theorem Filling.free (h : Filling r) (hlt : r.handed.length < memFreeMax)
    (hstep : r.step (.free ptr) = some r') : Filling r' := by
  obtain ⟨node, srv₁, ret, size, srv₂, hvalid, rfl, hrel, hstore, hfrees, hidx, hcnt, hmax,
    hhanded, hreleased⟩ := free_eq_some hstep
  have hroom : r.srv.freesCnt < r.srv.freesMax := by rwa [h.cnt, h.max]
  rw [releaseLast_of_lt hroom, some_inj, Prod.mk.injEq, Prod.mk.injEq] at hrel
  obtain ⟨rfl, rfl, rfl⟩ := hrel
  have hidx₀ : r.srv.freesIdx = r.handed.length := by rw [h.idx, Nat.mod_eq_of_lt hlt]
  have hidx₁ : r.srv.freesIdx < r.srv.freesMax := by rwa [hidx₀, h.max]
  rw [storeNode_eq (by rw [h.length, h.max]) hidx₁ hroom, some_inj] at hstore
  subst hstore
  dsimp only at hfrees hidx hcnt hmax
  rw [h.max, hidx₀] at hfrees hidx
  have hslot : (r.handed.length + 1) % memFreeMax < r.srv.frees.length := by
    rw [h.length]
    exact Nat.mod_lt _ (Nat.zero_lt_of_lt hlt)
  -- the slot stored to is the next one, or the slot `0` in the end
  have hfree : SlotValid r.srv.frees ((r.handed.length + 1) % memFreeMax) false := by
    refine h.room hlt _ (h.length ▸ hslot) ?_
    rcases Nat.lt_or_ge (r.handed.length + 1) memFreeMax with hnext | hnext
    · rw [Nat.mod_eq_of_lt hnext]
      exact .inr (Nat.lt_succ_self _)
    · rw [le_antisymm hlt hnext, Nat.mod_self]
      exact .inl rfl
  have hlen : r'.handed.length = r.handed.length + 1 := by
    rw [hhanded, length_append, length_singleton]
  refine ⟨hmax.trans h.max, ?_, hlen ▸ hlt, ?_, ?_, fun _ => ?_, fun hlt' j hj hfar => ?_, ?_, ?_⟩
  · rw [hfrees, length_set, h.length]
  · rw [hcnt, hlen, h.cnt]
  · rw [hidx, hlen]
  · rw [hfrees, hidx, ← hvalid]
    exact slotValid_set hslot node
  · rw [hfrees]
    rw [hlen] at hlt' hfar
    refine (h.room hlt j hj (by omega)).set_of_ne ?_ node
    rw [Nat.mod_eq_of_lt hlt']
    omega
  · rw [MppMemSrv.pending, hfrees, hhanded]
    refine ((filter_set_perm hfree hvalid).map (·.ptr)).trans ?_
    rw [map_cons]
    exact (h.pending.cons node.ptr).trans (perm_append_singleton node.ptr r.handed).symm
  · rw [hreleased, h.released]
    rfl

/-- A free into a full table: the node freed last is given back, and its slot stays behind. -/
theorem free_of_full (hmax₀ : r.srv.freesMax = memFreeMax) (hlen₀ : r.srv.frees.length = memFreeMax)
    (hcnt₀ : r.srv.freesCnt = memFreeMax) (hidx₀ : r.srv.freesIdx < memFreeMax)
    (hlast : SlotValid r.srv.frees r.srv.freesIdx true)
    (hhanded₀ : r.handed.length = r.released.length + memFreeMax)
    (hstep : r.step (.free ptr) = some r') : Overrun r' := by
  obtain ⟨node, srv₁, ret, size, srv₂, hvalid, rfl, hrel, hstore, hfrees, hidx, hcnt, hmax,
    hhanded, hreleased⟩ := free_eq_some hstep
  obtain ⟨old, hold, hold'⟩ := hlast
  rw [releaseLast_of_full (hcnt₀.trans hmax₀.symm) (hmax₀ ▸ hidx₀) hold hold', some_inj,
    Prod.mk.injEq, Prod.mk.injEq] at hrel
  obtain ⟨rfl, rfl, rfl⟩ := hrel
  rw [storeNode_eq (by rw [length_set, hlen₀, hmax₀]) (hmax₀ ▸ hidx₀)
    (by dsimp only; rw [hcnt₀, hmax₀]; decide), some_inj] at hstore
  subst hstore
  dsimp only at hfrees hidx hcnt hmax
  rw [hmax₀] at hfrees hidx
  have hnext : (r.srv.freesIdx + 1) % memFreeMax < memFreeMax := Nat.mod_lt _ (by decide)
  have hne : (r.srv.freesIdx + 1) % memFreeMax ≠ r.srv.freesIdx := by
    rw [memFreeMax] at hidx₀ ⊢
    omega
  refine ⟨hmax.trans hmax₀, ?_, ?_, hidx ▸ hnext, ?_, ⟨r.srv.freesIdx, ?_⟩, ?_, ?_⟩
  · rw [hfrees, length_set, length_set, hlen₀]
  · rw [hcnt, hcnt₀]
    rfl
  · rw [hfrees, hidx, ← hvalid]
    exact slotValid_set (by rwa [length_set, hlen₀]) node
  · rw [hfrees]
    refine SlotValid.set_of_ne ?_ hne node
    rw [← invalidate_valid hold']
    exact slotValid_set (hlen₀ ▸ hidx₀) old.invalidate
  · rw [hhanded, hreleased, length_append, length_append, hhanded₀]
    exact add_right_comm ..
  · rw [hreleased]
    exact append_ne_nil_of_right_ne_nil _ (cons_ne_nil _ _)

/-! ## Runs of the service -/

/-- A step keeps the table filling until it is overrun, and overrun from then on. -/
theorem step_filling_or_overrun {op : MemOp} (h : Filling r ∨ Overrun r)
    (hstep : r.step op = some r') : Filling r' ∨ Overrun r' := by
  by_cases hop : ∃ ptr, op = .free ptr
  · obtain ⟨ptr, rfl⟩ := hop
    rcases h with h | h
    · rcases h.le.lt_or_eq with hlt | hfull
      · exact .inl (h.free hlt hstep)
      · have hidx : r.srv.freesIdx < memFreeMax := by
          rw [h.idx]
          exact Nat.mod_lt _ (by decide)
        have hne : r.handed ≠ [] := ne_nil_of_length_pos (by rw [hfull]; decide)
        refine .inr (free_of_full h.max h.length (h.cnt.trans hfull) hidx (h.last hne) ?_ hstep)
        rw [h.released, hfull]
        rfl
    · exact .inr (free_of_full h.max h.length h.cnt h.idx h.last h.handed hstep)
  · obtain ⟨hfrees, hidx, hcnt, hmax, hhanded, hreleased⟩ :=
      step_frees hstep fun ptr heq => hop ⟨ptr, heq⟩
    exact h.imp (fun h => h.congr hfrees hidx hcnt hmax hhanded hreleased)
      fun h => h.congr hfrees hidx hcnt hmax hhanded hreleased

theorem run_filling_or_overrun {ops : List MemOp} (h : Filling r ∨ Overrun r)
    (hrun : ops.foldlM MemRun.step r = some r') : Filling r' ∨ Overrun r' := by
  induction ops generalizing r with
  | nil => exact some_inj.1 hrun ▸ h
  | cons op ops ih =>
    rw [foldlM_cons, bind_eq_bind, bind_eq_some_iff] at hrun
    obtain ⟨r₁, hstep, hrun⟩ := hrun
    exact ih (step_filling_or_overrun h hstep) hrun

/-- Before the table is overrun all blocks are pending. -/
theorem Filling.pendingInOrder (h : Filling r) : r.PendingInOrder :=
  ⟨r.handed, by rw [h.released, nil_append], h.pending, h.max ▸ h.le⟩

/-- Once it is, fewer blocks are in the table than have not been given back. -/
theorem Overrun.not_pendingInOrder (h : Overrun r) : ¬r.PendingInOrder := by
  rintro ⟨rest, heq, hperm, -⟩
  obtain ⟨j, hgone⟩ := h.gone
  have hlt := pending_length_lt hgone
  have hlen := congrArg List.length heq
  rw [length_append, h.handed] at hlen
  rw [hperm.length_eq, h.length] at hlt
  omega

/-- The blocks freed are given back in order, and those not given back are pending, exactly
    up to as many as the table has slots. -/
theorem pendingInOrder_iff (nodesMax : ℕ) (ops : List MemOp) (r : MemRun)
    (hrun : ops.foldlM MemRun.step (MemRun.init nodesMax) = some r) :
    r.PendingInOrder ↔ r.handed.length ≤ memFreeMax := by
  rcases run_filling_or_overrun (.inl (filling_init nodesMax)) hrun with h | h
  · exact iff_of_true h.pendingInOrder h.le
  · refine iff_of_false h.not_pendingInOrder (not_le.2 ?_)
    rw [h.handed]
    exact Nat.lt_add_of_pos_left (length_pos_iff.2 h.released)

/-! ## A table that is overrun -/

/-- A service whose one node is not in use. -/
def OneNode (srv : MppMemSrv) : Prop := ∃ node, srv.nodes = [node] ∧ node.Valid = false

/-- A node is always stored. -/
theorem exists_release_store (h : Filling r ∨ Overrun r) (node : MppMemNode) :
    ∃ srv₁ ret size srv₂, releaseLast r.srv = some (srv₁, ret, size) ∧
      storeNode srv₁ node = some srv₂ ∧ srv₂.nodes = r.srv.nodes := by
  have hidx : r.srv.freesIdx < r.srv.freesMax := by
    rcases h with h | h
    · rw [h.idx, h.max]
      exact Nat.mod_lt _ (by decide)
    · exact h.max ▸ h.idx
  have hlen : r.srv.frees.length = r.srv.freesMax := by
    rcases h with h | h
    · rw [h.length, h.max]
    · rw [h.length, h.max]
  rcases Nat.lt_or_ge r.srv.freesCnt r.srv.freesMax with hlt | hfull
  · exact ⟨_, _, _, _, releaseLast_of_lt hlt, storeNode_eq hlen hidx hlt node, rfl⟩
  · have hcnt : r.srv.freesCnt = r.srv.freesMax := by
      refine le_antisymm ?_ hfull
      rcases h with h | h
      · rw [h.cnt, h.max]
        exact h.le
      · rw [h.cnt, h.max]
    have hlast : SlotValid r.srv.frees r.srv.freesIdx true := by
      rcases h with h | h
      · refine h.last (ne_nil_of_length_pos ?_)
        rw [← h.cnt, hcnt, h.max]
        decide
      · exact h.last
    obtain ⟨old, hold, hvalid⟩ := hlast
    let srv₁ : MppMemSrv := { r.srv with
      frees := r.srv.frees.set r.srv.freesIdx old.invalidate
      freesCnt := r.srv.freesCnt - 1 }
    have hlen₁ : srv₁.frees.length = srv₁.freesMax := length_set.trans hlen
    have hidx₁ : srv₁.freesIdx < srv₁.freesMax := hidx
    have hcnt₁ : r.srv.freesCnt - 1 < r.srv.freesMax := by omega
    have hcnt₂ : srv₁.freesCnt < srv₁.freesMax := hcnt₁
    have hstore : storeNode srv₁ node = some _ := storeNode_eq hlen₁ hidx₁ hcnt₂ node
    exact ⟨srv₁, _, _, _, releaseLast_of_full hcnt hidx hold hvalid, hstore, rfl⟩

/-- A block that is allocated and freed again. -/
theorem exists_malloc_free (h : Filling r ∨ Overrun r) (hone : OneNode r.srv) (ptr : UInt64) :
    ∃ r', [MemOp.malloc ptr 8, .free ptr].foldlM MemRun.step r = some r' ∧
      OneNode r'.srv ∧ r'.handed = r.handed ++ [ptr] := by
  obtain ⟨node, hnodes, hnode⟩ := hone
  have hfind : r.srv.nodes.findIdx? (fun node => !node.Valid) = some 0 := by
    rw [hnodes, findIdx?_cons, if_pos (by rw [hnode]; rfl)]
  have hstep : r.step (.malloc ptr 8) = some { r with srv := addNode r.srv ptr 8 } := rfl
  have hadd : (addNode r.srv ptr 8).nodes = [⟨r.srv.nodesIdx, 8, ptr⟩] := by
    rw [addNode, hfind, hnodes]
    rfl
  have h₁ := step_filling_or_overrun h hstep
  set r₁ : MemRun := { r with srv := addNode r.srv ptr 8 }
  change r₁.srv.nodes = _ at hadd
  set node₁ : MppMemNode := ⟨r.srv.nodesIdx, 8, ptr⟩
  have hvalid : node₁.Valid := decide_eq_true (Int.natCast_nonneg _)
  have hfind₁ : r₁.srv.find ptr = some 0 := by
    rw [MppMemSrv.find, hadd, findIdx?_cons, if_pos]
    rw [hvalid, Bool.true_and]
    exact beq_self_eq_true ptr
  obtain ⟨srv₁, ret, size, srv₂, hrel, hstore, hnodes₂⟩ := exists_release_store h₁ node₁
  refine ⟨⟨{ srv₂ with
      nodes := srv₂.nodes.set 0 node₁.invalidate
      totalSize := srv₂.totalSize - node₁.size.toUInt32
      nodesCnt := srv₂.nodesCnt - 1 }, r.handed ++ [ptr], r.released ++ ret.toList⟩,
    ?_, ⟨node₁.invalidate, ?_, invalidate_valid hvalid⟩, rfl⟩
  · rw [foldlM_cons, hstep, bind_eq_bind, bind_some, foldlM_cons,
      MemRun.step, delayDelNode, hfind₁]
    simp only [hadd, getElem?_cons_zero, bind_eq_bind, bind_some, hrel, hstore]
    rfl
  · dsimp only
    rw [hnodes₂, hadd]
    rfl

/-- Blocks that are allocated and freed one after the other. -/
theorem exists_mallocs_frees (ptrs : List UInt64) (h : Filling r ∨ Overrun r)
    (hone : OneNode r.srv) :
    ∃ r', (ptrs.flatMap fun ptr => [MemOp.malloc ptr 8, .free ptr]).foldlM MemRun.step r =
      some r' ∧ r'.handed = r.handed ++ ptrs := by
  induction ptrs generalizing r with
  | nil => exact ⟨r, rfl, (append_nil _).symm⟩
  | cons ptr ptrs ih =>
    obtain ⟨r₁, hrun, hone₁, hhanded⟩ := exists_malloc_free h hone ptr
    obtain ⟨r₂, hrun₂, hhanded₂⟩ := ih (run_filling_or_overrun h hrun) hone₁
    refine ⟨r₂, ?_, by rw [hhanded₂, hhanded, append_assoc, singleton_append]⟩
    rw [flatMap_cons, foldlM_append, hrun]
    exact hrun₂

/-- Two blocks that are freed are both pending. -/
theorem pendingInOrder_iff_two :
    ∃ r, [MemOp.malloc 64 8, .free 64, .malloc 128 8, .free 128].foldlM MemRun.step
        (MemRun.init 1) = some r ∧ (r.PendingInOrder ↔ r.handed.length ≤ memFreeMax) := by
  obtain ⟨r, hrun, -⟩ :=
    exists_mallocs_frees [64, 128] (.inl (filling_init 1)) ⟨blankNode, rfl, rfl⟩
  exact ⟨r, hrun, pendingInOrder_iff 1 _ r hrun⟩

/-- With one block more than the table has slots, a block is lost. -/
theorem block_lost : ¬∀ (nodesMax : ℕ) (ops : List MemOp) (r : MemRun),
    ops.foldlM MemRun.step (MemRun.init nodesMax) = some r → r.PendingInOrder := by
  intro hall
  obtain ⟨r, hrun, hhanded⟩ := exists_mallocs_frees
    ((List.range (memFreeMax + 1)).map fun i => .ofNat (64 * (i + 1))) (.inl (filling_init 1))
    ⟨blankNode, rfl, rfl⟩
  have hlen := congrArg List.length hhanded
  rw [length_append, length_map, length_range] at hlen
  rcases run_filling_or_overrun (.inl (filling_init 1)) hrun with h | h
  · exact absurd h.le (by rw [hlen]; decide)
  · exact h.not_pendingInOrder (hall _ _ _ hrun)

end Libmpp.Osal
