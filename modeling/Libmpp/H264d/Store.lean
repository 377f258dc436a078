import Libmpp.H264d.Output

/-!
# Storing pictures in the H.264 decoder's buffer

`store_picture_in_dpb` and what it is made of. A decoded picture first changes the
marks of the pictures before it: an IDR picture empties the buffer, a reference
picture carries memory management control operations or lets the window slide. Then
the second field of a frame joins the first one, and any other picture takes a store
of its own, after frames were output and removed to make room; a picture that no other
one refers to and that comes first in output order is output at once instead.

`decodePicture` is what the decoder does for a picture as a whole: take a mark and a
slot for its memory (`dpb_mark_malloc`), number the pictures before it and, when it is
decoded, store it.
-/

namespace Libmpp.H264d

open Base

/-- `get_field_dpb_combine_flag`: the picture is the second field of the frame whose
    first field is in the store. -/
def getFieldDpbCombineFlag (last : Option FrameStore) (p : StorePic) : Bool :=
  match last with
  | some f =>
    p.picStructure ≠ .frame && f.frameNum = p.picNum &&
      f.isUsed = (if p.picStructure = .topField then ⟨false, true⟩ else ⟨true, false⟩) &&
      p.usedForReference = (f.isOrigReference ≠ .empty)
  | none => false

variable (c : VideoCtx) (p : StorePic)

/-- `dpb_split_field`: the fields of a frame, which share its memory. -/
def dpbSplitField (f : FrameStore) (p : StorePic) : VideoCtx × FrameStore :=
  if p.frameMbsOnlyFlag then (c, { f with poc := p.poc, topField := none, bottomField := none })
  else
    let shared := p.memMallocType = .malloc ∨ p.memMallocType = .clone
    let field : PictureStructure → ℤ → StorePic := fun picStructure poc =>
      { picStructure := picStructure
        memMark := if shared then p.memMark else none
        memMallocType := if shared then p.memMallocType else .null
        poc := poc
        topPoc := p.topPoc
        bottomPoc := p.bottomPoc
        framePoc := p.framePoc
        usedForReference := p.usedForReference
        isLongTerm := p.isLongTerm
        longTermFrameIdx := p.longTermFrameIdx }
    let c :=
      match p.memMark with
      | some m =>
        if shared then
          c.setMark m { c.dpbMark m with
            topUsed := (c.dpbMark m).topUsed + 1
            botUsed := (c.dpbMark m).botUsed + 1 }
        else c
      | none => c
    (c, { f with
      poc := p.poc
      longTermFrameIdx := p.longTermFrameIdx
      topField := some (field .topField p.topPoc)
      bottomField := some (field .bottomField p.bottomPoc) })

/-- `dpb_combine_field` -/
def dpbCombineField (f : FrameStore) (combineFlag : Bool) : FrameStore :=
  let f := dpbCombineFieldYuv f combineFlag
  { f with
    frame := f.frame.map fun s =>
      { s with
        frameNum := (f.topField.map (·.frameNum)).getD 0
        isOutput := f.isOutput } }

/-- The marks of the store with the picture that comes in. -/
def FrameStore.markIncoming (f : FrameStore) (p : StorePic) (b : Fields) : FrameStore :=
  let join : Fields → Fields := fun x => ⟨x.top || b.top, x.bottom || b.bottom⟩
  let f := { f with isUsed := join f.isUsed }
  if p.usedForReference then
    let f :=
      { f with isReference := join f.isReference, isOrigReference := join f.isOrigReference }
    if p.isLongTerm then
      { f with isLongTerm := join f.isLongTerm, longTermFrameIdx := p.longTermFrameIdx }
    else f
  else f

/-- `insert_picture_in_dpb`, into the given store. -/
def insertPictureInDpb (f : FrameStore) (p : StorePic) (combineFlag : Bool) :
    VideoCtx × FrameStore :=
  let w : VideoCtx × FrameStore :=
    match p.picStructure with
    | .frame =>
      let w := dpbSplitField c ({ f with frame := some p }.markIncoming p .both) p
      (w.1, { w.2 with poc := p.poc })
    | .topField =>
      let f := { f with topField := some p }.markIncoming p ⟨true, false⟩
      (c, if f.isUsed = .both then dpbCombineField f combineFlag else { f with poc := p.poc })
    | .bottomField =>
      let f := { f with bottomField := some p }.markIncoming p ⟨false, true⟩
      (c, if f.isUsed = .both then dpbCombineField f combineFlag else { f with poc := p.poc })
  (w.1, { w.2 with frameNum := p.picNum, isOutput := p.isOutput })

/-- The operations mark a picture like an IDR picture. -/
def hasMmco5 (ops : List Drpm) : Bool := ops.any (·.memoryManagementControlOperation = 5)

/-- The references are marked by the operations that the picture carries. -/
def StorePic.isAdaptive : Bool :=
  !p.idrFlag && p.usedForReference && p.adaptiveRefPicBufferingFlag

/-- What the marking of a picture leaves: the context, the picture and a return value. -/
abbrev MarkRet := VideoCtx × StorePic × MppRet

/-- `idr_memory_management` -/
def idrMemoryManagement : Option MarkRet :=
  let c :=
    if p.noOutputOfPriorPicsFlag then
      c.modifyDpb fun d =>
        d.used.foldl (fun d i => d.modify i fun f => { f with isOutput := true }) d
    else c
  (flushDpb c).map fun w =>
    if w.2 < 0 then (w.1, p, w.2)
    else
      let c := { w.1.modifyDpb fun d =>
          { updateLtrefList (updateRefList { d with lastPicture := none }) with
            lastOutputPoc := INT_MIN
            maxLongTermPicIdx := if p.longTermReferenceFlag then 0 else -1 } with
        iSliceNo := 1 }
      (c, if p.longTermReferenceFlag then { p with isLongTerm := true, longTermFrameIdx := 0 }
        else { p with isLongTerm := false }, mppOk)

/-- One memory management control operation (the body of the loop of
    `adaptive_memory_management`), with whether it is the last one. -/
def memoryManagementControl (op : Drpm) (isLast : Bool) : MarkRet :=
  match op.memoryManagementControlOperation with
  | 0 => (c, p, if isLast then mppOk else mppErrValue)
  | 1 =>
    (c.modifyDpb fun d =>
      updateRefList (mmUnmarkShortTermForReference d p op.differenceOfPicNumsMinus1), p, mppOk)
  | 2 =>
    (c.modifyDpb fun d =>
      updateLtrefList (mmUnmarkLongTermForReference d p op.longTermPicNum), p, mppOk)
  | 3 =>
    (c.modifyDpb fun d =>
      updateLtrefList (updateRefList (mmAssignLongTermFrameIdx d c.maxFrameNum p
        op.differenceOfPicNumsMinus1 op.longTermFrameIdx)), p, mppOk)
  | 4 =>
    (c.modifyDpb fun d =>
      updateLtrefList (mmUpdateMaxLongTermFrameIdx d op.maxLongTermFrameIdxPlus1), p, mppOk)
  | 5 =>
    ({ c.modifyDpb fun d =>
        mmUnmarkAllLongTermForReference (mmUnmarkAllShortTermForReference d) with
      lastHasMmco5 := true }, p, mppOk)
  | 6 =>
    let w := mmMarkCurrentPictureLongTerm c.dpb c.maxFrameNum p op.longTermFrameIdx
    ({ c with dpb := checkNumRef w.1 }, w.2, mppOk)
  | _ => (c, p, mppNok)

/-- The operations of a picture in turn, up to the first one that fails. -/
def memoryManagementControls (c : VideoCtx) (p : StorePic) : List Drpm → MarkRet
  | [] => (c, p, mppOk)
  | op :: ops =>
    let w := memoryManagementControl c p op ops.isEmpty
    if w.2.2 < 0 then w else memoryManagementControls w.1 w.2.1 ops

/-- The numbers of a picture that was handled like an IDR picture. -/
def resetPicNums : StorePic :=
  let p := { p with picNum := 0, frameNum := 0 }
  match p.picStructure with
  | .topField => { p with poc := 0, topPoc := 0 }
  | .bottomField => { p with poc := 0, bottomPoc := 0 }
  | .frame =>
    let topPoc := p.topPoc - p.poc
    let bottomPoc := p.bottomPoc - p.poc
    { p with
      topPoc := topPoc
      bottomPoc := bottomPoc
      poc := min topPoc bottomPoc
      framePoc := min topPoc bottomPoc }

/-- `adaptive_memory_management` -/
def adaptiveMemoryManagement : Option MarkRet :=
  if p.idrFlag ∨ !p.adaptiveRefPicBufferingFlag then
    some ({ c with lastHasMmco5 := false }, p, mppErrValue)
  else
    let w := memoryManagementControls { c with lastHasMmco5 := false } p
      p.decRefPicMarkingBuffer
    if w.2.2 < 0 then some w
    else if w.1.lastHasMmco5 then
      (flushDpb w.1).map fun x =>
        (x.1, resetPicNums w.2.1, if x.2 < 0 then x.2 else mppOk)
    else some (w.1, w.2.1, mppOk)

/-- The frame of `out_buffer`, when it holds both fields, is output. -/
def outputPair : VideoCtx :=
  if c.dpb.outBuffer.isUsed = .both then
    let f := dpbCombineFieldYuv c.dpb.outBuffer false
    (freeOutBuffer (writeFrame c f) f).modifyDpb fun d =>
      { d with
        outBuffer := { d.outBuffer with isDirectout := false }
        lastOutputPoc := p.poc
        lastPicture := none }
  else c

/-- `direct_output`: output a picture that is not stored. -/
def directOutput : Ret :=
  let field : Fields → VideoCtx → Ret := fun b c =>
    let c := c.modifyDpb fun d =>
      { d with
        outBuffer :=
          { d.outBuffer with
            topField := if b.top then some p else d.outBuffer.topField
            bottomField := if b.bottom then some p else d.outBuffer.bottomField
            isUsed := ⟨d.outBuffer.isUsed.top || b.top, d.outBuffer.isUsed.bottom || b.bottom⟩
            frameNum := p.picNum
            isDirectout := true }
        lastPicture := some .outBuffer }
    (outputPair c p, mppOk)
  match p.picStructure with
  | .frame =>
    funCheck (flushDirectOutput c) fun c =>
      let c := freeStorablePicture ((writePicture c p).modifyDpb fun d =>
        { d with lastOutputPoc := p.poc }) (some p)
      (c.modifyDpb fun d =>
        { d with
          lastPicture := none
          outBuffer := { d.outBuffer with isUsed := .empty, isDirectout := false } }, mppOk)
  | .topField =>
    funCheck (if c.dpb.outBuffer.isUsed.top then flushDirectOutput c else (c, mppOk))
      (field ⟨true, false⟩)
  | .bottomField =>
    funCheck (if c.dpb.outBuffer.isUsed.bottom then flushDirectOutput c else (c, mppOk))
      (field ⟨false, true⟩)

/-- `flush_one_dpb_mark`: give up the memory of a picture that could not be stored. -/
def flushOneDpbMark (m : Option ℕ) : VideoCtx :=
  match m with
  | some m =>
    let k := c.dpbMark m
    if k.outFlag ∧ 0 ≤ k.slotIdx then
      (c.log [.setFlag k.slotIdx .queueUse, .enqueueDisplay k.slotIdx k.framePoc,
        .clrFlag k.slotIdx .codecUse]).setMark m resetDpbMark
    else c
  | none => c

/-- How the making of room for a picture ends: there is a store for it, or it was output
    at once. -/
inductive Room
  | store
  | output
  deriving DecidableEq, Repr

/-- What the making of room leaves. -/
abbrev RoomRet := VideoCtx × StorePic × Room × MppRet

/-- The buffer is full, by its size or by the limit of the user. -/
def isFull : Bool :=
  c.dpb.size ≤ c.dpb.usedSize || (c.maxBufSize ≠ 0 && c.maxBufSize ≤ c.dpb.usedSize)

/-- Give up the first store, for a reference picture that comes first in output order. -/
def removeFirst : Ret :=
  let i := c.dpb.fs.getD 0 0
  let c := c.modifyDpb fun d => d.modify i unmarkForReference
  funCheck (if (c.dpb.stores i).isOutput then (c, mppOk) else writeStoredFrame c i)
    fun c => (removeFrameFromDpb c 0, mppOk)

/-- The picture comes before those that wait for output. -/
def comesFirst (d : DpbBuf) (p : StorePic) : Bool :=
  ((getSmallestPoc d).map fun x => decide (p.poc < x.1)).getD true

/-- A frame leaves the buffer, or is output at least. -/
def roomTurn (first : Bool) : Ret :=
  if first then removeFirst c else outputOneFrameFromDpb c

/-- The loop of `store_picture_in_dpb` that outputs and removes frames while the buffer is
    full. There is `none` when `n` turns were not enough. -/
def makeRoom : ℕ → VideoCtx → StorePic → Option RoomRet
  | 0, c, p => if isFull c then none else some (c, p, .store, mppOk)
  | n + 1, c, p =>
    if isFull c then
      let c := (removeUnusedFrameFromDpb c).getD c
      let first := comesFirst c.dpb p
      if first && !p.usedForReference then
        let w := directOutput c p
        some (w.1, p, .output, w.2)
      else
        let w := roomTurn c first
        if w.2 < 0 then some (w.1, p, .store, w.2)
        else makeRoom n w.1 (if first then { p with isLongTerm := false } else p)
    else some (c, p, .store, mppOk)

/-- Turns enough for a buffer: each one removes a frame or outputs one that waited. -/
def roomTurns : ℕ := 2 * c.dpb.usedSize

/-- Store a picture in the first free store. -/
def storeNew : VideoCtx :=
  let i := c.dpb.fs.getD c.dpb.usedSize 0
  let w := insertPictureInDpb c (c.dpb.stores i) p false
  let c := w.1.modifyDpb fun d =>
    { d.modify i fun _ => w.2 with
      lastPicture := if p.picStructure = .frame then none else some (.store i)
      usedSize := d.usedSize + 1 }
  (scanDpbOutput c).modifyDpb fun d => updateLtrefList (updateRefList d)

/-- Join the second field of a frame to the store of the first one. -/
def storeSecondField (last : LastPicture) : VideoCtx :=
  let c :=
    match last with
    | .store i =>
      let w := insertPictureInDpb c (c.dpb.stores i) p true
      w.1.modifyDpb fun d => d.modify i fun _ => w.2
    | .outBuffer =>
      let w := insertPictureInDpb c c.dpb.outBuffer p true
      w.1.modifyDpb fun d => { d with outBuffer := w.2 }
  scanDpbOutput c

/-- The marking of the pictures before `p`, by `p`. -/
def markReferences : Option MarkRet :=
  if p.idrFlag then idrMemoryManagement c p
  else if p.usedForReference && p.adaptiveRefPicBufferingFlag then adaptiveMemoryManagement c p
  else some (c, p, mppOk)

/-- A picture that takes a store of its own. -/
def storeSingle : Option Ret :=
  let slide := !p.idrFlag && p.usedForReference && !p.adaptiveRefPicBufferingFlag
  let p := if slide then { p with isLongTerm := false } else p
  let c := removeAllUnused (if slide then c.modifyDpb slidingWindowMemoryManagement else c)
  (makeRoom (roomTurns c) c p).map fun
    | (c, _, .output, ret) => (c, ret)
    | (c, p, .store, ret) => if ret < 0 then (c, ret) else (storeNew c p, mppOk)

/-- The picture after its marking: the second field of a frame or a single one. -/
def storeMarked : Option Ret :=
  match c.dpb.lastPicture with
  | some last =>
    if getFieldDpbCombineFlag c.dpb.lastStore p then
      some (funCheck
        (if (c.dpb.lastStore.map (·.isDirectout)).getD false then directOutput c p
          else (storeSecondField c p last, mppOk))
        fun c => (c.modifyDpb fun d => { d with lastPicture := none }, mppOk))
    else storeSingle c p
  | none => storeSingle c p

/-- `store_picture_in_dpb` -/
def storePictureInDpb : Option Ret :=
  let c :=
    match p.memMark with
    | some m =>
      if 0 ≤ (c.dpbMark m).slotIdx then c.log [.setFlag (c.dpbMark m).slotIdx .codecUse] else c
    | none => c
  let c := { c with lastHasMmco5 := false, lastPicBottomField := p.picStructure = .bottomField }
  ((markReferences c p).bind fun w =>
      if w.2.2 < 0 then some (w.1, w.2.2) else storeMarked w.1 w.2.1).map fun w =>
    if w.2 < 0 then (flushOneDpbMark w.1 p.memMark, w.2) else (w.1, mppOk)

/-- `dpb_mark_malloc`: the memory of a picture. A second field has that of the first one,
    any other picture takes the first mark that is free and the slot given to it. -/
def dpbMarkMalloc (slotIdx : ℤ) : Option (VideoCtx × StorePic) :=
  let new : Option (VideoCtx × ℕ) :=
    if p.combineFlag then c.activeDpbMark.map fun m => (c, m)
    else
      ((List.range maxMarkSize).find? fun m =>
        !(c.dpbMark m).outFlag && (c.dpbMark m).topUsed = 0 && (c.dpbMark m).botUsed = 0).map
        fun m =>
          ({ (c.log [.getUnused slotIdx]).setMark m
              { c.dpbMark m with slotIdx := slotIdx, outFlag := true, framePoc := p.poc } with
            activeDpbMark := some m }, m)
  new.map fun (c, m) =>
    let k := c.dpbMark m
    ((c.log [.setFlag k.slotIdx .halOutput]).setMark m
      { k with
        topUsed := if p.picStructure = .bottomField then k.topUsed else k.topUsed + 1
        botUsed := if p.picStructure = .topField then k.botUsed else k.botUsed + 1 },
      { p with memMark := some m, memMallocType := .malloc })

/-- The numbering of the pictures before `p` in `init_picture`. -/
def numberReferences : VideoCtx :=
  c.modifyDpb fun d => updatePicNum (updateLtrefList (updateRefList d)) c.maxFrameNum p

/-- What the decoder does for a picture: the memory for it with the slot it is given, the
    numbers of the pictures before it, then `store_picture_in_dpb`. -/
def decodePicture (slotIdx : ℤ) : Option Ret :=
  (dpbMarkMalloc c { p with combineFlag := getFieldDpbCombineFlag c.dpb.lastStore p }
    slotIdx).bind fun w => storePictureInDpb (numberReferences w.1 w.2) w.2

/-- `init_dpb`, with the size and the number of reference frames of the parameter set. -/
def initDpb (size numRefFrames : ℕ) (pocInterval : ℤ) : DpbBuf where
  size := size
  usedSize := 0
  stores := fun _ => {}
  fs := List.range size
  fsRef := []
  fsLtref := []
  pocInterval := pocInterval
  lastOutputPoc := INT_MIN
  maxLongTermPicIdx := 0
  numRefFrames := numRefFrames
  lastPicture := none
  outBuffer := {}

/-- What the stream and the user set: the size of the buffer, the number of reference
    frames and the differences of frame numbers, and how frames are output. -/
structure DecCfg where
  size : ℕ
  numRefFrames : ℕ
  maxFrameNum : ℕ
  maxBufSize : ℕ := 0
  fastOut : Bool := false
  enableFastPlay : FastPlay := .disable

/-- A decoder with an empty buffer, as `init_vid_ctx` and `init_dpb` leave it. -/
def initVideoCtx (cfg : DecCfg) : VideoCtx where
  dpb := initDpb cfg.size cfg.numRefFrames 2
  dpbMark := fun _ => resetDpbMark
  activeDpbMark := none
  slotOps := []
  lastHasMmco5 := false
  lastPicBottomField := false
  maxFrameNum := cfg.maxFrameNum
  maxBufSize := cfg.maxBufSize
  fastOut := cfg.fastOut
  enableFastPlay := cfg.enableFastPlay
  dpbFastOut := cfg.enableFastPlay ≠ .disable
  dpbFirstFastPlayed := false
  iSliceNo := 0

end Libmpp.H264d
