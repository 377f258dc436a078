import Libmpp.Lib.Memory

/-!
# The nodes of a configuration

The functions of `mpp_cfg_io.c` that make the nodes of a configuration, link them to a tree
and release them. A node is on at most one list, the child list of another node, by its
`list`; what the model has of it is the child lists. Names, values and table entries are left
out, and an allocation that fails for want of memory, which changes nothing. Of the name of an
array there is the size of its buffer, as `buf_size` counts it with the elements.

An access to a node that was released is a fault, and so is an array with elements outside its
block, and to put a node on a list while it is on one: its links are those of the list it is on.
A recursion with more calls in each other than there are nodes does not end, and is a fault too.
-/

namespace Libmpp.CfgIo

/-- `MppCfgType` -/
inductive MppCfgType
  | invalid | null | bool | s32 | u32 | s64 | u64 | f32 | f64 | string | raw | object | array | butt
deriving DecidableEq, Repr

/-- `type > MPP_CFG_TYPE_INVALID && type < MPP_CFG_TYPE_BUTT` -/
def MppCfgType.isValid (t : MppCfgType) : Bool := t ≠ .invalid ∧ t ≠ .butt

/-- `MppCfgIoImpl`. Without elements `elems` is `NULL`. -/
structure CfgNode where
  parent : Option ℕ := none
  child : List ℕ := []
  type : MppCfgType
  depth : ℕ := 0
  elems : List (Option ℕ) := []
deriving DecidableEq

/-- `sizeof(MppCfgIoImpl)` -/
def sizeofImpl : ℕ := 120

/-- `buf_size` of an array, an `rk_s32`, with the bytes of its name. -/
def arrayBufSize (nameBufLen : ℕ) (count : ℤ) : ℤ :=
  (sizeofImpl + nameBufLen + 8 * count).bmod (2 ^ 32)

/-- The nodes, and those released so far, in order. -/
structure CfgHeap where
  mem : Memory CfgNode := .empty
  released : List ℕ := []

namespace CfgHeap

variable (h : CfgHeap)

/-- A node gets other fields. -/
def update (a : ℕ) (f : CfgNode → CfgNode) : Option CfgHeap :=
  (h.mem.block a).map fun nd => { h with mem := h.mem.put a (f nd) }

/-- `mpp_free` -/
def free (a : ℕ) : Option CfgHeap :=
  (h.mem.free (some a)).map fun mem => { h with mem, released := h.released ++ [a] }

/-- The node is on a list. -/
def linked (a : ℕ) : Bool :=
  (List.range h.mem.next).any fun b => (h.mem.block b).any fun nd => a ∈ nd.child

/-- `list_del_init`: the node is taken off the list it is on. -/
def listDelInit (a : ℕ) : CfgHeap where
  mem := {
    next := h.mem.next
    block := fun b => (h.mem.block b).map fun nd => { nd with child := nd.child.erase a }
    fresh := fun b hb => by rw [h.mem.fresh b hb]; rfl }
  released := h.released

/-- `list_add_tail` -/
def listAddTail (a b : ℕ) : Option CfgHeap :=
  if h.linked a then none else h.update b fun nd => { nd with child := nd.child ++ [a] }

/-- `mpp_cfg_get_object`, with the node, none for `rk_nok`. -/
def mppCfgGetObject (type : MppCfgType) : CfgHeap × Option ℕ :=
  if type.isValid then ({ h with mem := h.mem.alloc [{ type }] }, some h.mem.next) else (h, none)

/-- `mpp_cfg_get_array`, with the node, none for a fault. A size below zero is too large for an
    allocation. -/
def mppCfgGetArray (nameBufLen : ℕ) (count : ℤ) : Option (CfgHeap × Option ℕ) :=
  if arrayBufSize nameBufLen count < 0 then some (h, none)
  else if arrayBufSize nameBufLen count < sizeofImpl + nameBufLen + 8 * count.toNat then none
  else some
    ({ h with mem := h.mem.alloc [{ type := .array, elems := List.replicate count.toNat none }] },
      some h.mem.next)

/-- `mpp_cfg_put`, none for a fault. -/
def mppCfgPut (a : ℕ) : Option CfgHeap := do
  let _ ← h.mem.block a
  let h := h.listDelInit a
  let nd ← h.mem.block a
  let h := nd.child.foldl listDelInit h
  let h ← h.update a fun nd => { nd with parent := none }
  h.free a

end CfgHeap

/-- `mpp_cfg_put_all_child` -/
def mppCfgPutAllChild : ℕ → CfgHeap → ℕ → Option CfgHeap
  | 0, _, _ => none
  | fuel + 1, h, a => do
    let nd ← h.mem.block a
    let h ← nd.child.foldlM (fun h c => mppCfgPutAllChild fuel (h.listDelInit c) c) h
    h.free a

/-- The loop of `mpp_cfg_put_all`, from the node `a` with the parent `root`. -/
def putAllLoop (depth : ℕ) : ℕ → CfgHeap → ℕ → Option ℕ → Option CfgHeap
  | 0, _, _, _ => none
  | fuel + 1, h, a, root => do
    let h ← mppCfgPutAllChild depth h a
    match root with
    | none => some h
    | some r => do
      let nd ← h.mem.block r
      putAllLoop depth fuel h r nd.parent

/-- `mpp_cfg_put_all`, none for a fault. -/
def mppCfgPutAll (h : CfgHeap) (a : ℕ) : Option CfgHeap := do
  let nd ← h.mem.block a
  putAllLoop (h.mem.next + 1) (h.mem.next + 1) h a nd.parent

/-- `loop_all_children` -/
def loopAllChildren (func : CfgHeap → ℕ → Option CfgHeap) : ℕ → CfgHeap → ℕ → Option CfgHeap
  | 0, _, _ => none
  | fuel + 1, h, a => do
    let h ← func h a
    let nd ← h.mem.block a
    nd.child.foldlM (loopAllChildren func fuel) h

/-- `update_depth` -/
def updateDepth (h : CfgHeap) (a : ℕ) : Option CfgHeap := do
  let nd ← h.mem.block a
  match nd.parent with
  | none => some h
  | some p => do
    let parent ← h.mem.block p
    h.update a fun nd => { nd with depth := parent.depth + 1 }

/-- The first empty element of an array gets a node. -/
def fillElem (a : ℕ) : List (Option ℕ) → List (Option ℕ)
  | [] => []
  | none :: l => some a :: l
  | some b :: l => some b :: fillElem a l

/-- The first element of an array that is the node is emptied. -/
def clearElem (a : ℕ) : List (Option ℕ) → List (Option ℕ)
  | [] => []
  | e :: l => if e = some a then none :: l else e :: clearElem a l

/-- `mpp_cfg_add`, of `leaf` to `root`, none for a fault. -/
def mppCfgAdd (h : CfgHeap) (root leaf : ℕ) : Option CfgHeap := do
  let r ← h.mem.block root
  if r.type.isValid then
    let h ← h.listAddTail leaf root
    let h ← h.update leaf fun nd => { nd with parent := some root }
    let h ← loopAllChildren updateDepth (h.mem.next + 1) h root
    h.update root fun r =>
      if r.type = .array then { r with elems := fillElem leaf r.elems } else r
  else some h

/-- `mpp_cfg_del`, none for a fault. -/
def mppCfgDel (h : CfgHeap) (a : ℕ) : Option CfgHeap := do
  let nd ← h.mem.block a
  match nd.parent with
  | none => some h
  | some p => do
    let h := h.listDelInit a
    let h ← h.update p fun r =>
      if r.type = .array then { r with elems := clearElem a r.elems } else r
    let h ← h.update a fun nd => { nd with parent := none, depth := 0 }
    loopAllChildren updateDepth (h.mem.next + 1) h a

/-- The calls. -/
inductive CfgCall
  | getObject (type : MppCfgType)
  | getArray (nameBufLen : ℕ) (count : ℤ)
  | add (root leaf : ℕ)
  | del (a : ℕ)
  | put (a : ℕ)
  | putAll (a : ℕ)
deriving DecidableEq

/-- One call, none for a fault. -/
def cfgCall (h : CfgHeap) : CfgCall → Option CfgHeap
  | .getObject type => some (h.mppCfgGetObject type).1
  | .getArray nameBufLen count => (h.mppCfgGetArray nameBufLen count).map Prod.fst
  | .add root leaf => mppCfgAdd h root leaf
  | .del a => mppCfgDel h a
  | .put a => h.mppCfgPut a
  | .putAll a => mppCfgPutAll h a

end Libmpp.CfgIo
