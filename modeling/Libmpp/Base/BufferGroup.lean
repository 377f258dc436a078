import Libmpp.Base.Err
import Libmpp.Lib.Filing
import Libmpp.Lib.Ledger

/-!
# Buffer groups

A group of buffers (`mpp_buffer_impl.c`): its buffers are in one of two lists, those in
use and those that wait to be used again, with counts beside them. A group that is put
while buffers are in use stays as an orphan.

* A group and its buffers are memory that may be given back. What the group has been, and
  each buffer under its `buffer_id`, is there or not; an access to what is gone is
  recorded as a fault, and so is the destruction of a buffer that is referenced. What the
  code does after such an access is not followed further.
* A ledger counts the creation and the destruction of the group and of its buffers.
* Each function runs as a whole, under the locks it takes. The answers of the allocators
  and of the search of the group by its id are inputs.
* Left out are the maps to devices, the logs, the dumps and the total of all groups. Of the
  callback only the access to the group is kept.
-/

namespace Libmpp.Base

inductive MppBufferMode
  | internal
  | external
  deriving DecidableEq, Repr

/-- The two lists of a group: `list_used` and `list_unused` -/
inductive BufferList
  | used
  | unused
  deriving DecidableEq, Repr

instance : Fintype BufferList where
  elems := {.used, .unused}
  complete l := by cases l <;> decide

structure MppBufferImpl where
  groupId : BitVec 32
  mode : MppBufferMode
  /-- `info.size` -/
  size : BitVec 64
  discard : Bool
  used : Bool
  refCount : ℤ
  deriving DecidableEq, Repr

/-- The list that the flag of the buffer says it is in -/
def MppBufferImpl.home (buffer : MppBufferImpl) : BufferList :=
  if buffer.used then .used else .unused

structure MppBufferGroupImpl where
  groupId : BitVec 32
  mode : MppBufferMode
  clearOnExit : Bool
  isMisc : Bool
  isOrphan : Bool
  isFinalizing : Bool
  limitSize : BitVec 64
  limitCount : ℤ
  usage : BitVec 64
  /-- The `buffer_id` of the next buffer -/
  bufferId : ℕ
  bufferCount : ℤ
  /-- `list_used` and `list_unused` -/
  list : BufferList → List ℕ
  /-- `count_used` and `count_unused` -/
  count : BufferList → ℤ

/-- What must not happen -/
inductive BufferFault
  /-- An access to a group that has been destroyed -/
  | staleGroup
  /-- An access to a buffer that has been destroyed -/
  | staleBuffer
  /-- The destruction of a buffer that is referenced -/
  | inUse
  /-- More calls of `service_put_group` inside each other than there are buffers -/
  | nesting
  /-- The id of a buffer finds another group -/
  | otherGroup
  deriving DecidableEq, Repr

/-- The memory of a group and its buffers. In the ledger `none` is the group, and `some b`
    its buffer `b`. -/
structure GroupMem where
  group : Option MppBufferGroupImpl
  buffers : ℕ → Option MppBufferImpl
  ledger : Ledger (Option ℕ)
  faults : List BufferFault

namespace GroupMem

def fault (f : BufferFault) (m : GroupMem) : GroupMem := { m with faults := f :: m.faults }

def setBuffer (b : ℕ) (buffer : MppBufferImpl) (m : GroupMem) : GroupMem :=
  { m with buffers := Function.update m.buffers b (some buffer) }

def setGroup (group : MppBufferGroupImpl) (m : GroupMem) : GroupMem :=
  { m with group := some group }

/-- The buffer is given back to its pool. -/
def freeBuffer (b : ℕ) (buffer : MppBufferImpl) (m : GroupMem) : GroupMem :=
  { m with
    buffers := Function.update m.buffers b none
    ledger := m.ledger.release {some b}
    faults := if 0 < buffer.refCount then .inUse :: m.faults else m.faults }

end GroupMem

/-- A group that `service_get_group` has set up, with the flags of its creation -/
def newGroup (id : BitVec 32) (mode : MppBufferMode) (isMisc clearOnExit : Bool) : GroupMem where
  group := some
    { groupId := id, mode, clearOnExit, isMisc, isOrphan := false, isFinalizing := false,
      limitSize := 0, limitCount := 0, usage := 0, bufferId := 0, bufferCount := 0,
      list := fun _ => [], count := fun _ => 0 }
  buffers _ := none
  ledger := Ledger.empty.acquire {none}
  faults := []

/-- `destroy_group` -/
def destroyGroup (m : GroupMem) : GroupMem :=
  let m := { m with ledger := m.ledger.release {none} }
  match m.group with
  | none => m.fault .staleGroup
  | some _ => { m with group := none }

/-- The group after a buffer is moved to the end of a list, by `list_del_init` and
    `list_add_tail`, from the list its flag says -/
def MppBufferGroupImpl.move (group : MppBufferGroupImpl) (b : ℕ) (src dst : BufferList) :
    MppBufferGroupImpl :=
  let count := Function.update group.count src (group.count src - 1)
  { group with
    list := file b dst (unfile b group.list)
    count := Function.update count dst (count dst + 1) }

/-- The group without a buffer that is destroyed. The size is read as an `rk_u32`. -/
def MppBufferGroupImpl.without (group : MppBufferGroupImpl) (b : ℕ) (buffer : MppBufferImpl) :
    MppBufferGroupImpl :=
  { group with
    list := unfile b group.list
    count := Function.update group.count buffer.home (group.count buffer.home - 1)
    usage := group.usage - (buffer.size.setWidth 32).setWidth 64
    bufferCount := group.bufferCount - 1 }

/-- `service_put_buffer`; `putGroup` is `service_put_group`, for an orphan that has nothing
    left -/
def servicePutBuffer (putGroup : GroupMem → GroupMem) (reuse : Bool) (b : ℕ) (m : GroupMem) :
    GroupMem :=
  match m.group, m.buffers b with
  | none, _ => m.fault .staleGroup
  | some _, none => m.fault .staleBuffer
  | some group, some buffer =>
    if reuse then
      -- a buffer that is not marked as used is in no list after this
      (m.setBuffer b { buffer with used := false }).setGroup <|
        if buffer.used then group.move b .used .unused
        else { group with list := unfile b group.list }
    else
      let group := group.without b buffer
      let m := m.setGroup group
      let m := if group.isOrphan ∧ group.usage = 0 ∧ ¬group.isFinalizing then putGroup m else m
      m.freeBuffer b buffer

/-- The reference count of a buffer is cleared, and the buffer marked as discarded. -/
def clearBuffer (b : ℕ) (m : GroupMem) : GroupMem :=
  match m.buffers b with
  | none => m.fault .staleBuffer
  | some buffer => m.setBuffer b { buffer with refCount := 0, discard := true }

/-- `service_put_group`, for at most so many calls inside each other -/
def servicePutGroup : ℕ → GroupMem → GroupMem
  | 0, m => m.fault .nesting
  | n + 1, m =>
    match m.group with
    | none => m.fault .staleGroup
    | some group =>
      let m := (group.list .unused).foldl
        (fun m b => servicePutBuffer (servicePutGroup n) false b m) m
      match m.group with
      -- the lists of the destroyed group are empty, and it is destroyed again
      | none => destroyGroup (m.fault .staleGroup)
      | some group =>
        if group.list .used = [] then destroyGroup m
        else if group.clearOnExit then
          destroyGroup <| (group.list .used).foldl
            (fun m b => servicePutBuffer (servicePutGroup n) false b (clearBuffer b m)) m
        else m.setGroup { group with isOrphan := true }

/-- `service_put_group`; each call inside it has an unused buffer less. -/
def putGroup (m : GroupMem) : GroupMem :=
  servicePutGroup ((m.group.elim 0 fun group => (group.list .unused).length) + 1) m

/-- `inc_buffer_ref`; `found` says whether the search by the id finds the group. -/
def incBufferRef (found : Bool) (b : ℕ) (m : GroupMem) : MppRet × GroupMem :=
  match m.buffers b with
  | none => (mppNok, m.fault .staleBuffer)
  | some buffer =>
    let buffer := { buffer with refCount := buffer.refCount + 1 }
    if buffer.used then (mppOk, m.setBuffer b buffer)
    else
      let m := m.setBuffer b { buffer with used := true }
      if found then
        match m.group with
        | none => (mppNok, m.fault .staleGroup)
        | some group => (mppOk, m.setGroup (group.move b .unused .used))
      else (mppNok, m)

/-- `mpp_buffer_create`; `alloc` says whether the pool and the allocator have what is asked
    for, and `buffer` whether the caller takes the buffer at once. -/
def mppBufferCreate (alloc buffer : Bool) (size : BitVec 64) (m : GroupMem) : MppRet × GroupMem :=
  match m.group with
  | none => (mppNok, m.fault .staleGroup)
  | some group =>
    if group.limitCount ≠ 0 ∧ group.limitCount ≤ group.bufferCount then (mppNok, m)
    else if group.limitSize ≠ 0 ∧ group.limitSize < size then (mppNok, m)
    else if !alloc then (mppErrMalloc, m)
    else
      let b := group.bufferId
      let p : MppBufferImpl :=
        { groupId := group.groupId, mode := group.mode, size, discard := false, used := buffer
          refCount := if buffer then 1 else 0 }
      let m := (m.setBuffer b p).setGroup
        { group with
          bufferId := group.bufferId + 1
          list := file b p.home group.list
          count := Function.update group.count p.home (group.count p.home + 1)
          usage := group.usage + size
          bufferCount := group.bufferCount + 1 }
      (mppOk, { m with ledger := m.ledger.acquire {some b} })

/-- `mpp_buffer_ref_dec` -/
def mppBufferRefDec (found : Bool) (b : ℕ) (m : GroupMem) : MppRet × GroupMem :=
  match m.buffers b with
  | none => (mppNok, m.fault .staleBuffer)
  | some buffer =>
    if buffer.refCount ≤ 0 then (mppNok, m)
    else
      let buffer := { buffer with refCount := buffer.refCount - 1 }
      let m := m.setBuffer b buffer
      if buffer.refCount = 0 ∧ found then
        match m.group with
        | none => (mppOk, m.fault .staleGroup)
        | some group =>
          let reuse := !group.isMisc && !buffer.discard
          let m := servicePutBuffer putGroup reuse b m
          -- `group->callback` is read, and `group->buf_lock` released
          match m.group with
          | none => (mppOk, m.fault .staleGroup)
          | some _ => (mppOk, m)
      else (mppOk, m)

/-- `mpp_buffer_discard` -/
def mppBufferDiscard (found : Bool) (b : ℕ) (m : GroupMem) : GroupMem :=
  if found then
    match m.buffers b with
    | none => m.fault .staleBuffer
    | some buffer => m.setBuffer b { buffer with discard := true }
  else m

/-- The search of `mpp_buffer_get_unused`: what is too small is destroyed on the way, if the
    buffers are the group's own. -/
def searchUnused (size : BitVec 64) : List ℕ → GroupMem → Option ℕ × GroupMem
  | [], m => (none, m)
  | pos :: l, m =>
    match m.group, m.buffers pos with
    | none, _ => (none, m.fault .staleGroup)
    | some _, none => (none, m.fault .staleBuffer)
    | some group, some buffer =>
      if size ≤ buffer.size then
        (some pos, (m.setBuffer pos
          { buffer with refCount := buffer.refCount + 1, used := true }).setGroup
            (group.move pos .unused .used))
      else if group.mode = .internal then
        searchUnused size l (servicePutBuffer putGroup false pos m)
      else searchUnused size l m

/-- `mpp_buffer_get_unused` -/
def mppBufferGetUnused (size : BitVec 64) (m : GroupMem) : Option ℕ × GroupMem :=
  match m.group with
  | none => (none, m.fault .staleGroup)
  | some group => searchUnused size (group.list .unused) m

/-- `mpp_buffer_group_reset` -/
def mppBufferGroupReset (m : GroupMem) : GroupMem :=
  match m.group with
  | none => m.fault .staleGroup
  | some group =>
    let m := (group.list .used).foldl (fun m b => mppBufferDiscard true b m) m
    (group.list .unused).foldl (fun m b => servicePutBuffer putGroup false b m) m

/-- `mpp_buffer_group_limit_config` -/
def mppBufferGroupLimitConfig (size : BitVec 64) (count : ℤ) (m : GroupMem) : GroupMem :=
  match m.group with
  | none => m.fault .staleGroup
  | some group => m.setGroup { group with limitSize := size, limitCount := count }

end Libmpp.Base
