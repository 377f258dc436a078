import Libmpp.H264d.Marking

/-!
# Output of the H.264 decoder's picture buffer

How the pictures of the buffer leave it (`h264d_dpb.c`). The memory of a picture is
a frame slot, held through a *mark* that counts the uses of its two fields and says
whether the frame is still to be output. A frame is *written* to the display queue
when its turn comes by order count, and its memory is given back when all uses of
the mark are gone and the frame has been written.

The operations on the frame slots are kept in the order they are made (`slotOps`),
with the order count of the frame that goes into the display queue. The discard and
error flags of a frame, which leave its way through the queue as it is, are left out.
-/

namespace Libmpp.H264d

open Base

def INT_MIN : ℤ := -2147483648

def INT_MAX : ℤ := 2147483647

/-- `MAX_MARK_SIZE` -/
abbrev maxMarkSize : ℕ := 35

/-- The mark of the memory of a picture (`H264_DpbMark_t`). -/
structure DpbMark where
  topUsed : ℕ := 0
  botUsed : ℕ := 0
  outFlag : Bool := false
  slotIdx : ℤ := -1
  /-- The order count in `mframe`, the frame of the slot. -/
  framePoc : ℤ := 0
  deriving DecidableEq, Repr

inductive SlotFlag
  | codecUse
  | queueUse
  | halOutput
  deriving DecidableEq, Repr

/-- An operation on the frame slot of the given index. -/
inductive SlotOp
  | getUnused (slotIdx : ℤ)
  | setFlag (slotIdx : ℤ) (flag : SlotFlag)
  | clrFlag (slotIdx : ℤ) (flag : SlotFlag)
  | enqueueDisplay (slotIdx : ℤ) (poc : ℤ)
  deriving DecidableEq, Repr

/-- The slot of an operation. -/
def SlotOp.slotIdx : SlotOp → ℤ
  | .getUnused i | .setFlag i _ | .clrFlag i _ | .enqueueDisplay i _ => i

/-- `enable_fast_play` -/
inductive FastPlay
  | disable
  | enable
  | once
  | unsupported
  deriving DecidableEq, Repr

/-- The video context, with the buffer of its one layer. -/
structure VideoCtx where
  dpb : DpbBuf
  dpbMark : ℕ → DpbMark
  activeDpbMark : Option ℕ
  slotOps : List SlotOp
  lastHasMmco5 : Bool
  lastPicBottomField : Bool
  maxFrameNum : ℤ
  maxBufSize : ℕ
  fastOut : Bool
  enableFastPlay : FastPlay
  dpbFastOut : Bool
  dpbFirstFastPlayed : Bool
  iSliceNo : ℕ

namespace VideoCtx

def modifyDpb (c : VideoCtx) (g : DpbBuf → DpbBuf) : VideoCtx := { c with dpb := g c.dpb }

def setMark (c : VideoCtx) (m : ℕ) (k : DpbMark) : VideoCtx :=
  { c with dpbMark := Function.update c.dpbMark m k }

def log (c : VideoCtx) (l : List SlotOp) : VideoCtx := { c with slotOps := c.slotOps ++ l }

end VideoCtx

/-- What a function leaves and returns. -/
abbrev Ret := VideoCtx × MppRet

/-- `FUN_CHECK`: go on when a call did not fail. -/
def funCheck (r : Ret) (k : VideoCtx → Ret) : Ret := if r.2 < 0 then r else k r.1

def resetDpbMark : DpbMark := {}

/-- The uses of a mark that are left when a picture is freed. -/
def DpbMark.release (k : DpbMark) : PictureStructure → DpbMark
  | .frame => { k with topUsed := k.topUsed - 1, botUsed := k.botUsed - 1 }
  | .topField => { k with topUsed := k.topUsed - 1 }
  | .bottomField => { k with botUsed := k.botUsed - 1 }

/-- The memory of the mark can be given back. -/
def DpbMark.isFree (k : DpbMark) : Bool :=
  k.topUsed = 0 && k.botUsed = 0 && !k.outFlag && 0 ≤ k.slotIdx

variable (c : VideoCtx)

def freeDpbMark (m : ℕ) (picStructure : PictureStructure) : VideoCtx :=
  let k := (c.dpbMark m).release picStructure
  if k.isFree then (c.log [.clrFlag k.slotIdx .codecUse]).setMark m resetDpbMark
  else c.setMark m k

/-- What is freed with a picture: the structure given with its mark. -/
def StorePic.freed (p : StorePic) : Option PictureStructure :=
  match p.memMallocType with
  | .malloc | .clone => some p.picStructure
  | .topOnly => some .topField
  | .botOnly => some .bottomField
  | .null | .unPaired => none

def freeStorablePicture (p : Option StorePic) : VideoCtx :=
  match p with
  | some p =>
    match p.freed, p.memMark with
    | some picStructure, some m => freeDpbMark c m picStructure
    | _, _ => c
  | none => c

/-- The store without what `remove_frame_from_dpb` frees. -/
def FrameStore.removed (f : FrameStore) : FrameStore :=
  { f with
    frame := if f.isUsed = .both then none else f.frame
    topField := if f.isUsed.top then none else f.topField
    bottomField := if f.isUsed.bottom then none else f.bottomField
    isUsed := .empty
    isLongTerm := .empty
    isReference := .empty
    isOrigReference := .empty }

/-- Free the pictures in use in a store. -/
def freeUsedPictures (f : FrameStore) : VideoCtx :=
  let c := if f.isUsed = .both then freeStorablePicture c f.frame else c
  let c := if f.isUsed.top then freeStorablePicture c f.topField else c
  if f.isUsed.bottom then freeStorablePicture c f.bottomField else c

/-- Move the entry at `pos` behind the others of the first `n`. -/
def moveToEnd (l : List ℕ) (n pos : ℕ) : List ℕ :=
  (l.take n).eraseIdx pos ++ l.getD pos 0 :: l.drop n

/-- `remove_frame_from_dpb`: free the store at `pos` and move it behind those in use. -/
def removeFrameFromDpb (pos : ℕ) : VideoCtx :=
  let i := c.dpb.fs.getD pos 0
  (freeUsedPictures c (c.dpb.stores i)).modifyDpb fun d =>
    { d.modify i FrameStore.removed with
      fs := moveToEnd d.fs d.usedSize pos
      usedSize := d.usedSize - 1 }

/-- `remove_unused_frame_from_dpb`: the first store that was output and is no longer
    referenced. There is `none` when there is nothing to remove. -/
def removeUnusedFrameFromDpb : Option VideoCtx :=
  match c.dpb.used.findIdx? fun i =>
      (c.dpb.stores i).isOutput && !isUsedForReference (c.dpb.stores i) with
  | some pos => some (removeFrameFromDpb c pos)
  | none => none

/-- `while (!remove_unused_frame_from_dpb(p_Dpb));`, at most `n` times. -/
def removeUnusedFrames : ℕ → VideoCtx → VideoCtx
  | 0, c => c
  | n + 1, c =>
    match removeUnusedFrameFromDpb c with
    | some c' => removeUnusedFrames n c'
    | none => c

/-- All of them: a buffer has at most `usedSize` frames to remove. -/
def removeAllUnused : VideoCtx := removeUnusedFrames c.dpb.usedSize c

/-- `get_smallest_poc`: the order count and the position of the first store with the
    smallest one of those that wait for output. There is `none` for no such store, which
    includes the stores of order count `INT_MAX`. -/
def getSmallestPoc (d : DpbBuf) : Option (ℤ × ℕ) :=
  d.used.zipIdx.foldl (fun best x =>
    let f := d.stores x.1
    if f.poc < (best.map Prod.fst).getD INT_MAX ∧ !f.isOutput then some (f.poc, x.2)
    else best) none

/-- `dpb_combine_field_yuv`: the frame of the two fields of a store. -/
def dpbCombineFieldYuv (f : FrameStore) (combineFlag : Bool) : FrameStore :=
  match f.topField, f.bottomField with
  | some top, some btm =>
    let frame : StorePic :=
      match f.frame with
      | some frame => frame
      | none =>
        if combineFlag then
          { picStructure := .frame, memMallocType := top.memMallocType, memMark := top.memMark }
        else if f.isUsed = ⟨true, false⟩ then
          { picStructure := .frame, memMark := top.memMark }
        else if f.isUsed = ⟨false, true⟩ then
          { picStructure := .frame, memMark := btm.memMark }
        else
          { picStructure := .frame, memMallocType := top.memMallocType, memMark := top.memMark }
    let poc := min top.poc btm.poc
    let isLongTerm := top.isLongTerm && btm.isLongTerm
    { f with
      poc := poc
      frame := some { frame with
        poc := poc
        framePoc := poc
        topPoc := top.poc
        bottomPoc := btm.poc
        usedForReference := top.usedForReference && btm.usedForReference
        isLongTerm := isLongTerm
        longTermFrameIdx := if isLongTerm then f.longTermFrameIdx else frame.longTermFrameIdx }
      topField := some { top with framePoc := poc, bottomPoc := btm.poc }
      bottomField := some { btm with framePoc := poc, topPoc := top.poc } }
  | _, _ => f

/-- `write_picture`: put a frame that is still to be output into the display queue. -/
def writePicture (p : StorePic) : VideoCtx :=
  match p.memMark with
  | some m =>
    let k := c.dpbMark m
    if (p.memMallocType = .malloc ∨ p.memMallocType = .topOnly ∨ p.memMallocType = .botOnly) ∧
        p.picStructure = .frame ∧ k.outFlag then
      (c.log [.setFlag k.slotIdx .queueUse, .enqueueDisplay k.slotIdx k.framePoc]).setMark m
        { k with outFlag := false }
    else c
  | none => c

def writeFrame (f : FrameStore) : VideoCtx :=
  match f.frame with
  | some p => writePicture c p
  | none => c

/-- `write_unpaired_field`: write a field with an empty one in place of the other. -/
def writeUnpairedField (f : FrameStore) : VideoCtx × FrameStore × MppRet :=
  if f.isUsed = .both then (c, f, mppErrValue)
  else if f.isUsed.top then
    let f := dpbCombineFieldYuv
      { f with bottomField := some { picStructure := .bottomField, memMallocType := .unPaired } }
      false
    let f := { f with frame := f.frame.map fun s => { s with memMallocType := .topOnly } }
    (writeFrame c f, { f with isUsed := .both }, mppOk)
  else if f.isUsed.bottom then
    let f := dpbCombineFieldYuv
      { f with topField := some { picStructure := .topField, memMallocType := .unPaired } } false
    let f := { f with frame := f.frame.map fun s => { s with memMallocType := .botOnly } }
    (writeFrame c f, { f with isUsed := .both }, mppOk)
  else (c, { f with isUsed := .both }, mppOk)

/-- Free the pictures of `out_buffer`. -/
def freeOutBuffer (f : FrameStore) : VideoCtx :=
  let c := freeStorablePicture c f.frame
  let c := freeStorablePicture c f.topField
  let c := freeStorablePicture c f.bottomField
  c.modifyDpb fun d =>
    { d with
      outBuffer :=
        { f with frame := none, topField := none, bottomField := none, isUsed := .empty } }

def flushDirectOutput : Ret :=
  let w := writeUnpairedField c c.dpb.outBuffer
  if w.2.2 < 0 then (w.1, w.2.2) else (freeOutBuffer w.1 w.2.1, mppOk)

/-- `write_stored_frame`, of the store at an address. -/
def writeStoredFrame (i : ℕ) : Ret :=
  funCheck (flushDirectOutput c) fun c =>
    let w :=
      if (c.dpb.stores i).isUsed = .both then
        (writeFrame c (c.dpb.stores i), c.dpb.stores i, mppOk)
      else
        let w := writeUnpairedField c (c.dpb.stores i)
        let c := freeStorablePicture w.1 w.2.1.topField
        let c := freeStorablePicture c w.2.1.bottomField
        (c, { w.2.1 with topField := none, bottomField := none }, w.2.2)
    (w.1.modifyDpb fun d =>
      { d.modify i fun _ => { w.2.1 with isOutput := true } with
        lastOutputPoc := w.2.1.poc }, mppOk)

/-- `output_one_frame_from_dpb` -/
def outputOneFrameFromDpb : Ret :=
  match getSmallestPoc c.dpb with
  | some (_, pos) =>
    funCheck (writeStoredFrame c (c.dpb.fs.getD pos 0)) fun c =>
      if isUsedForReference (c.dpb.stores (c.dpb.fs.getD pos 0)) then (c, mppOk)
      else (removeFrameFromDpb c pos, mppOk)
  | none => (c, mppOk)

/-- The interval between the order counts of frames, once an odd one is seen. -/
def updatePocInterval (pocInc : ℤ) (d : DpbBuf) : DpbBuf :=
  if pocInc.natAbs % 2 = 1 then { d with pocInterval := 1 } else d

/-- The loop of `output_dpb_normal`, at most `n` times. -/
def outputDpbNormalLoop : ℕ → VideoCtx → Ret
  | 0, c => (c, mppOk)
  | n + 1, c =>
    match getSmallestPoc c.dpb with
    | some (minPoc, minPos) =>
      if INT_MIN < c.dpb.lastOutputPoc then
        let pocInc := minPoc - c.dpb.lastOutputPoc
        let c := c.modifyDpb (updatePocInterval pocInc)
        if pocInc ≤ c.dpb.pocInterval then
          funCheck (writeStoredFrame c (c.dpb.fs.getD minPos 0)) (outputDpbNormalLoop n)
        else (c, mppOk)
      else (c, mppOk)
    | none => (c, mppOk)

/-- `output_dpb_normal`: each turn of its loop outputs one of the waiting frames. -/
def outputDpbNormal : Ret :=
  funCheck (outputDpbNormalLoop c.dpb.usedSize c) fun c => (removeAllUnused c, mppOk)

/-- `output_dpb_fastplay` -/
def outputDpbFastplay (i : ℕ) (isIFrm : Bool) : VideoCtx :=
  if c.dpbFastOut && isIFrm then (writeStoredFrame c i).1 else (outputDpbNormal c).1

/-- `output_dpb_fastplay_once` -/
def outputDpbFastplayOnce (i : ℕ) (isIFrm : Bool) : VideoCtx :=
  if c.dpbFastOut && isIFrm && !c.dpbFirstFastPlayed then
    let w := writeStoredFrame c i
    if w.2 < 0 then w.1 else { w.1 with dpbFirstFastPlayed := true }
  else
    let off := c.dpbFastOut && isIFrm && c.dpbFirstFastPlayed
    (outputDpbNormal { c with dpbFastOut := if off then false else c.dpbFastOut }).1

/-- `scan_dpb_output`. Its return value is not looked at. -/
def scanDpbOutput : VideoCtx :=
  let i := c.dpb.fs.getD (c.dpb.usedSize - 1) 0
  if (c.dpb.stores i).isUsed = .both then
    let isIFrm : Bool := c.iSliceNo < 2 && c.dpb.lastOutputPoc = INT_MIN
    if c.fastOut then (writeStoredFrame c i).1
    else
      match c.enableFastPlay with
      | .disable => (outputDpbNormal c).1
      | .enable => outputDpbFastplay c i isIFrm
      | .once => outputDpbFastplayOnce c i isIFrm
      | .unsupported => c
  else c

/-- The loop of `flush_dpb` that outputs the frames in order, at most `n` times. There is
    `none` when frames are left over: such a turn has found no frame to output, and
    neither will any other. -/
def flushLoop : ℕ → VideoCtx → Option Ret
  | 0, c => if c.dpb.usedSize = 0 then some (c, mppOk) else none
  | n + 1, c =>
    if c.dpb.usedSize = 0 then some (c, mppOk)
    else
      let w := outputOneFrameFromDpb c
      if w.2 < 0 then some w else flushLoop n w.1

/-- `flush_dpb`, which does not return when its loop has no end. -/
def flushDpb : Option Ret :=
  let c := c.modifyDpb fun d => d.used.foldl (fun d i => d.modify i unmarkForReference) d
  let c := removeAllUnused c
  (flushLoop c.dpb.usedSize c).map fun w =>
    funCheck w fun c => (c.modifyDpb fun d => { d with lastOutputPoc := INT_MIN }, mppOk)

end Libmpp.H264d
