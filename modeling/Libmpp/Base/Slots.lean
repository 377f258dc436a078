import Libmpp.Base.Err
import Libmpp.Lib.Links
import Libmpp.Lib.Machine

/-!
# Buffer slots

The slots of the decoded pictures (`mpp_buf_slot.c`): each counts who holds it in the bit
fields of its status, and is in at most one of four queues, through an intrusive link.
Each operation runs under one lock.

* Memory is explicit as far as the links need it. The slots are an array in a block of
  memory, which `mpp_realloc` may move; the links of a moved slot still point into the
  block before, and so do those of the queues. An access to a block that is gone has no
  result (`none`), as has a `slot_assert` that fails, which aborts. An allocation that
  fails for want of memory is a crash here, and left out.
* What a frame or a buffer is stays open: a number says which frame was copied into the
  slot, and which buffer it refers to. `generate_info_set` and the comparison with the
  frame information of before are an input of the operation.
* The log of the operations, the decode and display counts, which are only dumped, and the
  properties of the whole object (`mpp_slots_set_prop`) are left out.
-/

namespace Libmpp.Base

/-- `SlotStatus`, with fields of the widths of the source -/
structure SlotStatus where
  onUsed : Bool
  notReady : Bool
  codecUse : Bool
  halOutput : BitVec 2
  halUse : BitVec 8
  queueUse : BitVec 5
  eos : Bool
  hasBuffer : Bool
  hasFrame : Bool
  deriving DecidableEq, Repr

/-- `val = 0` -/
instance : Zero SlotStatus where
  zero :=
    { onUsed := false, notReady := false, codecUse := false, halOutput := 0, halUse := 0,
      queueUse := 0, eos := false, hasBuffer := false, hasFrame := false }

inductive SlotQueueType
  | output
  | display
  | deinterlace
  | colorConvert
  deriving DecidableEq, Repr

inductive SlotUsageType
  | codecReady
  | codecUse
  | halInput
  | halOutput
  | queueUse
  deriving DecidableEq, Repr

inductive SlotPropType
  | eos
  | frame
  | buffer
  | framePtr
  deriving DecidableEq, Repr

inductive MppBufSlotOps
  | init
  | setOnUse
  | clrOnUse
  | setNotReady
  | clrNotReady
  | setCodecReady
  | clrCodecReady
  | setCodecUse
  | clrCodecUse
  | setHalInput
  | clrHalInput
  | setHalOutput
  | clrHalOutput
  | setQueueUse
  | clrQueueUse
  | enqueue (type : SlotQueueType)
  | dequeue (type : SlotQueueType)
  | setEos
  | clrEos
  | setFrame
  | clrFrame
  | setBuffer
  | clrBuffer
  deriving DecidableEq, Repr

/-- `set_flag_op` -/
def setFlagOp : SlotUsageType → MppBufSlotOps
  | .codecReady => .setCodecReady
  | .codecUse => .setCodecUse
  | .halInput => .setHalInput
  | .halOutput => .setHalOutput
  | .queueUse => .setQueueUse

/-- `clr_flag_op` -/
def clrFlagOp : SlotUsageType → MppBufSlotOps
  | .codecReady => .clrCodecReady
  | .codecUse => .clrCodecUse
  | .halInput => .clrHalInput
  | .halOutput => .clrHalOutput
  | .queueUse => .clrQueueUse

/-- `set_val_op`, which has no initializer for `SLOT_FRAME_PTR`: zero is `SLOT_INIT` -/
def setValOp : SlotPropType → MppBufSlotOps
  | .eos => .setEos
  | .frame => .setFrame
  | .buffer => .setBuffer
  | .framePtr => .init

structure MppBufSlotEntry where
  status : SlotStatus
  index : ℤ
  eos : UInt32
  frame : Option ℕ
  buffer : Option ℕ
  deriving DecidableEq, Repr

instance : Zero MppBufSlotEntry where
  zero := { status := 0, index := 0, eos := 0, frame := none, buffer := none }

/-- The status that `slot_ops_with_log` writes, with `arg` whether its argument is not
    `NULL`. What it reports as an error it only logs. -/
def SlotStatus.ops (status : SlotStatus) (op : MppBufSlotOps) (arg : Bool) : SlotStatus :=
  match op with
  | .init => 0
  | .setOnUse => { status with onUsed := true }
  | .clrOnUse => { status with onUsed := false }
  | .setNotReady => { status with notReady := true }
  | .clrNotReady => { status with notReady := false }
  | .setCodecReady => { status with notReady := false }
  | .clrCodecReady => { status with notReady := true }
  | .setCodecUse => { status with codecUse := true }
  | .clrCodecUse => { status with codecUse := false }
  | .setHalInput => { status with halUse := status.halUse + 1 }
  | .clrHalInput =>
    if status.halUse ≠ 0 then { status with halUse := status.halUse - 1 } else status
  | .setHalOutput => { status with halOutput := status.halOutput + 1, notReady := true }
  | .clrHalOutput =>
    let halOutput := if status.halOutput ≠ 0 then status.halOutput - 1 else status.halOutput
    { status with halOutput, notReady := if halOutput = 0 then false else status.notReady }
  | .setQueueUse | .enqueue _ => { status with queueUse := status.queueUse + 1 }
  | .clrQueueUse | .dequeue _ =>
    if status.queueUse ≠ 0 then { status with queueUse := status.queueUse - 1 } else status
  | .setEos => { status with eos := true }
  | .clrEos => { status with eos := false }
  | .setFrame => { status with hasFrame := arg }
  | .clrFrame => { status with hasFrame := false }
  | .setBuffer => { status with hasBuffer := arg }
  | .clrBuffer => { status with hasBuffer := false }

/-- `slot_ops_with_log` -/
def slotOpsWithLog (slot : MppBufSlotEntry) (op : MppBufSlotOps) (arg : Bool) : MppBufSlotEntry :=
  { slot with
    status := slot.status.ops op arg
    eos := if op = .clrEos then 0 else slot.eos }

/-! ## Memory -/

/-- What the links link: the heads of the queues, and the slots in a block. -/
inductive SlotNode
  | queue (type : SlotQueueType)
  | slot (block pos : ℕ)
  deriving DecidableEq, Repr

structure MppBufSlotsImpl where
  infoChanged : Bool
  infoChangeSlotIdx : ℤ
  newCount : ℤ
  bufCount : ℤ
  usedCount : ℤ
  /-- The `list` of each slot, and the queues. -/
  link : SlotNode → Link SlotNode
  /-- The blocks of memory there are; the next one is `blocks`. -/
  heap : ℕ → Option (List MppBufSlotEntry)
  blocks : ℕ
  /-- The block the slots are in. -/
  slots : Option ℕ

/-- What `mpp_realloc` decides: whether the block moves, and what its new part holds. -/
structure Realloc where
  moved : Bool
  entry : ℕ → MppBufSlotEntry
  link : ℕ → Link SlotNode

namespace MppBufSlotsImpl

variable (impl : MppBufSlotsImpl)

/-- The slots. -/
def entries : List MppBufSlotEntry := (impl.slots.bind impl.heap).getD []

/-- The entry in a block. -/
def entryAt (block pos : ℕ) : Option MppBufSlotEntry :=
  (impl.heap block).bind fun slots => slots[pos]?

/-- The node is in memory that is there. -/
def isLive : SlotNode → Bool
  | .queue _ => true
  | .slot block pos => (impl.entryAt block pos).isSome

/-- Write an entry in a block. -/
def modify (impl : MppBufSlotsImpl) (block pos : ℕ) (f : MppBufSlotEntry → MppBufSlotEntry) :
    MppBufSlotsImpl :=
  { impl with
    heap := Function.update impl.heap block ((impl.heap block).map fun slots => slots.modify pos f) }

/-- `list_del_init` -/
def delInit (node : SlotNode) : Option MppBufSlotsImpl :=
  if impl.isLive (impl.link node).prev ∧ impl.isLive (impl.link node).next then
    some { impl with link := listDelInit impl.link node }
  else none

/-- `list_add_tail` -/
def addTail (node : SlotNode) (type : SlotQueueType) : Option MppBufSlotsImpl :=
  if impl.isLive (impl.link (.queue type)).prev then
    some { impl with link := listAddTail impl.link node (.queue type) }
  else none

/-- The slot at `index`, as the functions with an index look it up: in range or aborted. -/
def slotAt (index : ℤ) : Option (ℕ × ℕ × MppBufSlotEntry) :=
  if 0 ≤ index ∧ index < impl.bufCount then do
    let block ← impl.slots
    let slot ← impl.entryAt block index.toNat
    some (block, index.toNat, slot)
  else none

/-- `mpp_calloc` for the slots: as a size, a negative count is larger than any memory. -/
def calloc (count : ℤ) : MppBufSlotsImpl :=
  if 0 ≤ count then
    { impl with
      heap := Function.update impl.heap impl.blocks (some (List.replicate count.toNat 0))
      blocks := impl.blocks + 1
      slots := some impl.blocks }
  else
    { impl with slots := none }

/-- `mpp_realloc` for the slots: for a size of zero, too, it returns `NULL`. -/
def realloc (count : ℤ) (mem : Realloc) : MppBufSlotsImpl :=
  match impl.slots with
  | some block =>
    if 0 < count then
      let old := impl.entries
      let slots := (List.range count.toNat).map fun i => old[i]?.getD (mem.entry i)
      let link := fun i => if i < old.length then impl.link (.slot block i) else mem.link i
      let block' := if mem.moved then impl.blocks else block
      { impl with
        heap := Function.update (Function.update impl.heap block none) block' (some slots)
        link := fun
          | .queue type => impl.link (.queue type)
          | .slot b i => if b = block' then link i else impl.link (.slot b i)
        blocks := if mem.moved then impl.blocks + 1 else impl.blocks
        slots := some block' }
    else
      { impl with slots := none }
  | none => impl

end MppBufSlotsImpl

variable (impl : MppBufSlotsImpl)

/-- `init_slot_entry`: the entries it goes through start at the first slot -/
def initSlotEntry (pos count : ℤ) : MppBufSlotsImpl :=
  match impl.slots with
  | some block =>
    { impl with
      heap := Function.update impl.heap block <| (impl.heap block).map fun slots =>
        slots.mapIdx fun i slot =>
          if (i : ℤ) < count then
            slotOpsWithLog { slot with index := pos + i, frame := none } .init false
          else slot
      link := fun
        | .queue type => impl.link (.queue type)
        | .slot b i =>
          if b = block ∧ (i : ℤ) < count then { next := .slot b i, prev := .slot b i }
          else impl.link (.slot b i) }
  | none => impl

/-- `mpp_buf_slot_init` -/
def mppBufSlotInit : MppBufSlotsImpl :=
  { infoChanged := false, infoChangeSlotIdx := -1, newCount := 0, bufCount := 0, usedCount := 0,
    link := fun node => { next := node, prev := node }, heap := fun _ => none, blocks := 0,
    slots := none }

/-! ## Operations -/

/-- `mpp_buf_slot_setup` -/
def mppBufSlotSetup (count : ℤ) (mem : Realloc) : MppBufSlotsImpl :=
  match impl.slots with
  | none =>
    let impl := { impl with bufCount := count, newCount := count }
    { initSlotEntry (impl.calloc count) 0 count with usedCount := 0 }
  | some _ =>
    let impl :=
      if count > impl.bufCount then
        initSlotEntry (impl.realloc count mem) impl.bufCount (count - impl.bufCount)
      else impl
    { impl with newCount := count }

/-- `mpp_buf_slot_ready` -/
def mppBufSlotReady (mem : Realloc) : Option MppBufSlotsImpl :=
  if impl.slots = none then none
  else
    let impl :=
      if impl.bufCount ≠ impl.newCount then
        initSlotEntry (impl.realloc impl.newCount mem) 0 impl.newCount
      else impl
    some { impl with bufCount := impl.newCount, infoChanged := false, infoChangeSlotIdx := -1 }

/-- `mpp_buf_slot_get_unused`, with the index it finds: without an unused slot it aborts -/
def mppBufSlotGetUnused : Option (ℤ × MppBufSlotsImpl) := do
  let block ← impl.slots
  let i ← (impl.entries.take impl.bufCount.toNat).findIdx? fun slot => !slot.status.onUsed
  let impl := impl.modify block i fun slot =>
    slotOpsWithLog (slotOpsWithLog slot .setOnUse false) .setNotReady false
  some (i, { impl with usedCount := impl.usedCount + 1 })

/-- The condition of `check_entry_unused` -/
def SlotStatus.isUnheld (status : SlotStatus) : Bool :=
  status.onUsed && !status.notReady && !status.codecUse && status.halOutput = 0 &&
    status.halUse = 0 && status.queueUse = 0

/-- What `check_entry_unused` does with an entry that nobody holds -/
def recycle (entry : MppBufSlotEntry) : MppBufSlotEntry :=
  let entry :=
    if entry.frame.isSome then { slotOpsWithLog entry .clrFrame true with frame := none }
    else entry
  let entry :=
    if entry.buffer.isSome then { slotOpsWithLog entry .clrBuffer true with buffer := none }
    else entry
  slotOpsWithLog entry .clrOnUse false

/-- `check_entry_unused` -/
def checkEntryUnused (block pos : ℕ) : Bool × MppBufSlotsImpl :=
  match impl.entryAt block pos with
  | some entry =>
    if entry.status.isUnheld then
      (true, { impl.modify block pos recycle with usedCount := impl.usedCount - 1 })
    else (false, impl)
  | none => (false, impl)

/-- `mpp_buf_slot_set_flag` -/
def mppBufSlotSetFlag (index : ℤ) (type : SlotUsageType) : Option MppBufSlotsImpl := do
  let (block, pos, _) ← impl.slotAt index
  some (impl.modify block pos fun slot => slotOpsWithLog slot (setFlagOp type) false)

/-- `mpp_buf_slot_clr_flag`, with whether the callback is called -/
def mppBufSlotClrFlag (index : ℤ) (type : SlotUsageType) : Option (Bool × MppBufSlotsImpl) := do
  let (block, pos, _) ← impl.slotAt index
  let impl := impl.modify block pos fun slot => slotOpsWithLog slot (clrFlagOp type) false
  some (checkEntryUnused impl block pos)

/-- `mpp_buf_slot_enqueue` -/
def mppBufSlotEnqueue (index : ℤ) (type : SlotQueueType) : Option MppBufSlotsImpl := do
  let (block, pos, _) ← impl.slotAt index
  let impl := impl.modify block pos fun slot => slotOpsWithLog slot (.enqueue type) false
  let impl ← impl.delInit (.slot block pos)
  impl.addTail (.slot block pos) type

/-- `mpp_buf_slot_dequeue`, with the index it hands out -/
def mppBufSlotDequeue (type : SlotQueueType) : Option (MppRet × Option ℤ × MppBufSlotsImpl) :=
  if listEmpty impl.link (.queue type) then some (mppNok, none, impl)
  else
    match (impl.link (.queue type)).next with
    | .queue _ => none
    | .slot block pos => do
      let slot ← impl.entryAt block pos
      if slot.status.notReady then some (mppNok, none, impl)
      else
        let impl ← impl.delInit (.slot block pos)
        if slot.index < impl.bufCount then
          let impl := impl.modify block pos fun slot => slotOpsWithLog slot (.dequeue type) false
          some (mppOk, some slot.index, impl)
        else none

/-- The properties a slot is given: a frame with whether the frame information changes. -/
inductive SlotProp
  | eos (eos : UInt32)
  | frame (frame : ℕ) (changed : Bool)
  | buffer (buffer : ℕ)
  | framePtr
  deriving DecidableEq, Repr

def SlotProp.type : SlotProp → SlotPropType
  | .eos _ => .eos
  | .frame _ _ => .frame
  | .buffer _ => .buffer
  | .framePtr => .framePtr

/-- `mpp_buf_slot_set_prop` -/
def mppBufSlotSetProp (index : ℤ) (val : SlotProp) : Option MppBufSlotsImpl := do
  let (block, pos, slot) ← impl.slotAt index
  let impl := impl.modify block pos fun slot => slotOpsWithLog slot (setValOp val.type) true
  match val with
  | .eos eos => some (impl.modify block pos fun slot => { slot with eos })
  | .frame frame changed =>
    if slot.status.notReady then
      let impl := impl.modify block pos fun slot => { slot with frame := some frame }
      if changed then some { impl with infoChanged := true, infoChangeSlotIdx := index }
      else some impl
    else none
  | .buffer buffer =>
    -- the buffer of a slot that has a frame is not replaced
    if slot.buffer.isSome ∧ slot.frame.isSome then none
    else some (impl.modify block pos fun slot => { slot with buffer := some buffer })
  | .framePtr => some impl

/-- The values of the properties. -/
inductive SlotPropVal
  | eos (eos : UInt32)
  | frame (frame : Option ℕ)
  | buffer (buffer : Option ℕ)
  deriving DecidableEq, Repr

/-- `mpp_buf_slot_get_prop` -/
def mppBufSlotGetProp (index : ℤ) (type : SlotPropType) : Option SlotPropVal := do
  let (_, _, slot) ← impl.slotAt index
  match type with
  | .eos => some (.eos slot.eos)
  | .frame | .framePtr => some (.frame (if slot.status.hasFrame then slot.frame else none))
  | .buffer => some (.buffer (if slot.status.hasBuffer then slot.buffer else none))

/-- `mpp_buf_slot_reset` -/
def mppBufSlotReset (index : ℤ) : Option (MppRet × MppBufSlotsImpl) :=
  if index < 0 then some (mppErrNullPtr, impl)
  else do
    let (block, pos, _) ← impl.slotAt index
    let impl ← impl.delInit (.slot block pos)
    -- used_count stays
    let impl := impl.modify block pos fun slot =>
      slotOpsWithLog (slotOpsWithLog (slotOpsWithLog slot .clrQueueUse false)
        (.dequeue .output) false) .clrOnUse false
    some (mppOk, impl)

/-- `mpp_buf_slot_default_info`, with `frame` the copy of `info_set` -/
def mppBufSlotDefaultInfo (index : ℤ) (frame : ℕ) : Option (MppRet × MppBufSlotsImpl) :=
  if index < 0 then some (mppErrNullPtr, impl)
  else do
    let (block, pos, slot) ← impl.slotAt index
    if slot.status.notReady ∧ slot.frame = none then
      let impl := impl.modify block pos fun slot =>
        slotOpsWithLog (slotOpsWithLog { slot with frame := some frame } .clrNotReady false)
          .setFrame true
      some (mppOk, impl)
    else none

/-- `mpp_slots_get_used_count` -/
def mppSlotsGetUsedCount : ℤ := impl.usedCount

/-- `mpp_slots_get_unused_count` -/
def mppSlotsGetUnusedCount : Option ℤ :=
  if 0 ≤ impl.usedCount ∧ impl.usedCount ≤ impl.bufCount then
    some (impl.bufCount - impl.usedCount)
  else none

/-! ## Runs -/

inductive SlotOp
  | setup (count : ℤ) (mem : Realloc)
  | ready (mem : Realloc)
  | getUnused
  | setFlag (index : ℤ) (type : SlotUsageType)
  | clrFlag (index : ℤ) (type : SlotUsageType)
  | enqueue (index : ℤ) (type : SlotQueueType)
  | dequeue (type : SlotQueueType)
  | setProp (index : ℤ) (val : SlotProp)
  | getProp (index : ℤ) (type : SlotPropType)
  | defaultInfo (index : ℤ) (frame : ℕ)
  | reset (index : ℤ)

def slotStep : SlotOp → Option MppBufSlotsImpl
  | .setup count mem => some (mppBufSlotSetup impl count mem)
  | .ready mem => mppBufSlotReady impl mem
  | .getUnused => (mppBufSlotGetUnused impl).map Prod.snd
  | .setFlag index type => mppBufSlotSetFlag impl index type
  | .clrFlag index type => (mppBufSlotClrFlag impl index type).map Prod.snd
  | .enqueue index type => mppBufSlotEnqueue impl index type
  | .dequeue type => (mppBufSlotDequeue impl type).map fun r => r.2.2
  | .setProp index val => mppBufSlotSetProp impl index val
  | .getProp index type => (mppBufSlotGetProp impl index type).map fun _ => impl
  | .defaultInfo index frame => (mppBufSlotDefaultInfo impl index frame).map Prod.snd
  | .reset index => (mppBufSlotReset impl index).map Prod.snd

/-- The runs of the slots, from just after `mpp_buf_slot_init`. -/
def slotMachine : Machine MppBufSlotsImpl SlotOp := .ofPartial mppBufSlotInit slotStep

end Libmpp.Base
