import Libmpp.H264e.Ops
import Libmpp.EncRef.Status

/-!
# The H.264 decoded picture buffer

The encoder side model of the dpb (`h264e_dpb.c`): the bridge from the frames of
the reference manager (`EncCpbStatus`) to the slots of the hardware buffers. A
frame is encoded in two calls.

* `h264eDpbProc` looks up the frames kept before it, takes a free slot for it,
  finds the slot of its reference, and generates the reordering and marking
  operations of its slice. A frame with the number of the last one is a re-encoded
  one: the slots and the running numbers are then put back first.
* `h264eDpbCheck` moves on to the state after the frame: a long-term frame
  replaces the one with its index, a short-term frame moves the sliding window.

A frame that is looked up and not found ends the program (`abort`), which gives
`none`, as does the use of a null pointer. The assertions of the source only log.
-/

namespace Libmpp.H264e

open EncRef

/-- The slots of the buffer, `H264E_MAX_REFS_CNT + 1`. -/
abbrev dpbFrmCnt : ℕ := h264eMaxRefsCnt + 1

/-- A slot of the dpb. -/
@[ext]
structure H264eDpbFrm where
  seqIdx : Fin 65536
  dpbUsed : Bool
  /-- The users of the slot in the hardware layer, a field of eight bits. -/
  halUsed : Fin 256
  status : EncFrmStatus
  asPskipRef : Bool
  frameNum : ℤ
  ltIdx : Fin 16
  poc : ℤ
  deriving DecidableEq, Repr

instance : Zero H264eDpbFrm := ⟨⟨0, false, 0, 0, false, 0, 0, 0⟩⟩

/-- `on_used`, the word with both uses of a slot, is not zero. -/
def H264eDpbFrm.onUsed (p : H264eDpbFrm) : Bool := p.dpbUsed || p.halUsed ≠ 0

/-- Take a slot out of the dpb. -/
def H264eDpbFrm.clear (p : H264eDpbFrm) : H264eDpbFrm :=
  { p with dpbUsed := false, status := { p.status with valid := false } }

/-- The running numbers. -/
structure H264eDpbRt where
  lastSeqIdx : Fin 65536
  lastIsRef : ℤ
  lastFrmNum : ℤ
  lastPocLsb : ℤ
  lastPocMsb : ℤ
  deriving DecidableEq, Repr

instance : Zero H264eDpbRt := ⟨⟨0, 0, 0, 0, 0⟩⟩

/-- The slots. -/
abbrev DpbFrames := Vector H264eDpbFrm dpbFrmCnt

/-- The decoded picture buffer. -/
structure H264eDpb where
  reorder : H264eReorderInfo
  marking : H264eMarkingInfo
  info : MppEncCpbInfo
  nextMaxLtIdx : ℤ
  currMaxLtIdx : ℤ
  stSize : ℤ
  ltSize : ℤ
  usedSize : ℤ
  dpbSize : ℤ
  /-- The slots in use are the first `totalCnt`; there are no more than the array has. -/
  totalCnt : Fin (dpbFrmCnt + 1)
  maxFrmNum : ℤ
  maxPocLsb : ℤ
  pocType : ℤ
  curr : Option (Fin dpbFrmCnt)
  refr : Option (Fin dpbFrmCnt)
  list : List (Fin dpbFrmCnt)
  map : List (Option (Fin dpbFrmCnt))
  rt : H264eDpbRt
  rtBak : H264eDpbRt
  frames : DpbFrames
  frmBak : DpbFrames
  deriving DecidableEq

/-- The dpb with everything cleared but the operations, which live outside it. -/
def h264eDpbInit (reorder : H264eReorderInfo) (marking : H264eMarkingInfo) : H264eDpb where
  reorder := reorder
  marking := marking
  info := 0
  nextMaxLtIdx := 0
  currMaxLtIdx := 0
  stSize := 0
  ltSize := 0
  usedSize := 0
  dpbSize := 0
  totalCnt := 0
  maxFrmNum := 0
  maxPocLsb := 0
  pocType := 0
  curr := none
  refr := none
  list := []
  map := .replicate maxCpbRefs none
  rt := 0
  rtBak := 0
  frames := .replicate _ 0
  frmBak := .replicate _ 0

/-- The fields of the sequence parameter set that the dpb is set up from. -/
structure H264eSps where
  log2MaxFrameNumMinus4 : ℕ
  log2MaxPocLsbMinus4 : ℕ
  picOrderCntType : ℤ
  deriving DecidableEq, Repr

variable (dpb : H264eDpb) (frames : DpbFrames)

/-- Set up the dpb for a configuration. The source does not check that the slots in
    use fit the array; where they do not, every scan of them reads outside it. -/
def h264eDpbSetup (info : MppEncCpbInfo) (extraBuf : Bool) (sps : H264eSps) : Option H264eDpb :=
  let totalCnt := (info.dpbSize + 1 + if extraBuf then 1 else 0).toNat
  if h : totalCnt < dpbFrmCnt + 1 then
    some { h264eDpbInit dpb.reorder dpb.marking with
      info
      dpbSize := info.dpbSize
      totalCnt := ⟨totalCnt, h⟩
      maxFrmNum := 2 ^ (sps.log2MaxFrameNumMinus4 + 4)
      maxPocLsb := 2 ^ (sps.log2MaxPocLsbMinus4 + 4)
      pocType := sps.picOrderCntType }
  else none

/-! ## Looking up frames -/

/-- A slot in use holds a frame with the number of `frm`. -/
def H264eDpbFrm.matches (p : H264eDpbFrm) (frm : EncFrmStatus) : Bool :=
  p.status.valid && p.status.seqIdx == frm.seqIdx

/-- The slot of a frame: `some none` for no frame, and `none` when the frame is not found. -/
def findCpbFrame (totalCnt : Fin (dpbFrmCnt + 1)) (frames : DpbFrames) (frm : EncFrmStatus) :
    Option (Option (Fin dpbFrmCnt)) :=
  if !frm.valid then some none else
  ((List.finRange dpbFrmCnt).find? fun i =>
    i.val < totalCnt.val && (frames.get i).matches frm).map some

/-- Look up the frames kept before the current one, in order, and mark their slots. -/
def mapCpb (totalCnt : Fin (dpbFrmCnt + 1)) :
    List EncFrmStatus → DpbFrames → Option (DpbFrames × List (Option (Fin dpbFrmCnt)))
  | [], frames => some (frames, [])
  | frm :: init, frames => do
    let p ← findCpbFrame totalCnt frames frm
    let frames := match p with
      | some i => frames.set i { frames.get i with dpbUsed := true }
      | none => frames
    let (frames, map) ← mapCpb totalCnt init frames
    some (frames, p :: map)

/-! ## The current frame -/

/-- Begin a frame: an IDR frame empties the dpb, and a frame with the number of the
    last one is encoded again, from the state before it. -/
def H264eDpb.begin (curr : EncFrmStatus) : H264eDpb :=
  if curr.isIdr then
    { dpb with frames := dpb.frames.map H264eDpbFrm.clear, usedSize := 0, currMaxLtIdx := 0,
               nextMaxLtIdx := 0 }
  else if curr.seqIdx = dpb.rt.lastSeqIdx then
    { dpb with rt := dpb.rtBak, frames := dpb.frmBak }
  else dpb

/-- The frame number of the current frame. -/
def H264eDpb.currFrmNum (dpb : H264eDpb) (curr : EncFrmStatus) : ℤ :=
  if curr.isIdr then 0 else
  let currFrmNum := dpb.rt.lastFrmNum + dpb.rt.lastIsRef
  if currFrmNum ≥ dpb.maxFrmNum then 0 else currFrmNum

/-- The low and the high part of the picture order count of the current frame. -/
def H264eDpb.currPoc (curr : EncFrmStatus) : ℤ × ℤ :=
  if curr.isIdr then (0, 0) else
  let currPocLsb :=
    if dpb.pocType = 0 then dpb.rt.lastPocLsb + 2
    else if dpb.pocType = 2 then dpb.rt.lastPocLsb + (1 + dpb.rt.lastIsRef)
    else dpb.rt.lastPocLsb
  if currPocLsb ≥ dpb.maxPocLsb then (0, dpb.rt.lastPocMsb + 1) else (currPocLsb, dpb.rt.lastPocMsb)

/-- The slot `p` with the current frame in it. -/
def H264eDpb.currFrm (curr : EncFrmStatus) (p : H264eDpbFrm) : H264eDpbFrm :=
  { p with
    status := curr
    seqIdx := curr.seqIdx
    frameNum := dpb.currFrmNum curr
    poc := (dpb.currPoc curr).1 + (dpb.currPoc curr).2 * dpb.maxPocLsb
    ltIdx := curr.ltIdx
    dpbUsed := true }

/-- The running numbers with the current frame. -/
def H264eDpb.currRt (curr : EncFrmStatus) : H264eDpbRt where
  lastSeqIdx := curr.seqIdx
  lastIsRef := if curr.isNonRef then 0 else 1
  lastFrmNum := dpb.currFrmNum curr
  lastPocLsb := (dpb.currPoc curr).1
  lastPocMsb := (dpb.currPoc curr).2

/-- The slots and the current one while they are scanned. -/
abbrev ScanState := DpbFrames × Option (Fin dpbFrmCnt)

/-- A slot is not to be touched: it holds a frame kept, or it is in use elsewhere. -/
def keeps (map : List (Option (Fin dpbFrmCnt))) (frames : DpbFrames) (i : Fin dpbFrmCnt) : Bool :=
  map.contains (some i) || (frames.get i).asPskipRef || (frames.get i).halUsed ≠ 0

/-- Scan slot `i`: the first free one becomes the current one, the later ones are cleared. -/
def scanSlot (curr : EncFrmStatus) (s : ScanState) (i : Fin dpbFrmCnt) : ScanState :=
  let (frames, foundCurr) := s
  if keeps dpb.map frames i then s
  else if foundCurr.isSome then (frames.set i (frames.get i).clear, foundCurr)
  else (frames.set i (dpb.currFrm curr (frames.get i)), some i)

/-- Scan all slots. -/
def H264eDpb.scan (curr : EncFrmStatus) : H264eDpb :=
  let (frames, found) := (List.finRange dpbFrmCnt).foldl (scanSlot dpb curr) (dpb.frames, none)
  { dpb with
    frames
    curr := found
    rt := if found.isSome then dpb.currRt curr else dpb.rt }

/-! ## The reference list -/

/-- The slots of the short-term and of the long-term frames kept before the current
    one. The status of a slot is refreshed on the way. -/
def listRefs (totalCnt : Fin (dpbFrmCnt + 1)) :
    List EncFrmStatus → DpbFrames →
      Option (DpbFrames × List (Fin dpbFrmCnt) × List (Fin dpbFrmCnt))
  | [], frames => some (frames, [], [])
  | frm :: init, frames => do
    match ← findCpbFrame totalCnt frames frm with
    | none => listRefs totalCnt init frames
    | some p =>
      let (frames, stref, ltref) ←
        listRefs totalCnt init (frames.set p { frames.get p with status := frm })
      if !frm.isLtRef then some (frames, p :: stref, ltref) else some (frames, stref, p :: ltref)

/-- The order of `cmp_st_list`, by descending frame number. -/
def cmpStList (p0 p1 : Fin dpbFrmCnt) : Prop :=
  (frames.get p1).frameNum ≤ (frames.get p0).frameNum

/-- The order of `cmp_lt_list`, by long-term index. -/
def cmpLtList (p0 p1 : Fin dpbFrmCnt) : Prop :=
  (frames.get p0).ltIdx ≤ (frames.get p1).ltIdx

instance (frames : DpbFrames) : DecidableRel (cmpStList frames) :=
  fun p0 p1 => inferInstanceAs (Decidable ((frames.get p1).frameNum ≤ (frames.get p0).frameNum))

instance (frames : DpbFrames) : DecidableRel (cmpLtList frames) :=
  fun p0 p1 => inferInstanceAs (Decidable ((frames.get p0).ltIdx ≤ (frames.get p1).ltIdx))

/-- The operation that moves `refr` to the front of the list. -/
def reorderOp (curr refr : H264eDpbFrm) : H264eRplmo :=
  if refr.status.isLtRef then
    { (0 : H264eRplmo) with modificationOfPicNumsIdc := 2, longTermPicIdx := refr.status.ltIdx.val }
  else
    { (0 : H264eRplmo) with
      modificationOfPicNumsIdc := if curr.frameNum > refr.frameNum then 0 else 1
      absDiffPicNumMinus1 := |curr.frameNum - refr.frameNum| - 1 }

/-- The operation that brings the reference of the current frame to the front of the
    default list, when it is not there. -/
def reorderFor (list : List (Fin dpbFrmCnt)) (curr refr : Option (Fin dpbFrmCnt)) :
    Option (Option H264eRplmo) :=
  match list with
  | [] => some none
  | defRef :: _ => do
    let curr ← curr
    let refr ← refr
    if (frames.get defRef).status.seqIdx ≠ (frames.get refr).status.seqIdx then
      some (some (reorderOp (frames.get curr) (frames.get refr)))
    else some none

/-- The default list: the short-term frames, then the long-term frames. -/
def defaultList (stref ltref : List (Fin dpbFrmCnt)) : List (Fin dpbFrmCnt) :=
  stref.insertionSort (cmpStList frames) ++ ltref.insertionSort (cmpLtList frames)

/-- The dpb with the frames listed, and the list modification `op`. -/
def H264eDpb.listed (stref ltref : List (Fin dpbFrmCnt)) (op : Option H264eRplmo) : H264eDpb :=
  { dpb with
    frames
    list := defaultList frames stref ltref
    stSize := stref.length
    ltSize := ltref.length
    reorder := match op with
      | some op => dpb.reorder.wrRewind.wrOp op
      | none => dpb.reorder.wrRewind }

/-- Build the default list of the current frame and its list modification. -/
def h264eDpbBuildList (cpb : EncCpbStatus) : Option H264eDpb :=
  if cpb.curr.isIntra then some { dpb with list := [] } else do
  let (frames, stref, ltref) ← listRefs dpb.totalCnt cpb.init.toList dpb.frames
  let op ← reorderFor frames (defaultList frames stref ltref) dpb.curr dpb.refr
  some (dpb.listed frames stref ltref op)

/-! ## The marking -/

/-- The operation that announces the largest long-term index. -/
def mmcoMaxLtIdx (maxLtIdx : ℤ) : H264eMmco :=
  { (0 : H264eMmco) with mmco := 4, maxLongTermFrameIdxPlus1 := maxLtIdx + 1 }

/-- The operation that makes the current frame the long-term frame `ltIdx`, in the
    variable that holds `op`. -/
def H264eMmco.setLt (op : H264eMmco) (ltIdx : Fin 16) : H264eMmco :=
  { op with mmco := 6, longTermFrameIdx := ltIdx.val }

/-- Mark the current frame as the long-term frame `ltIdx`, and announce the largest
    index first, when it has not been announced. -/
def H264eDpb.markLt (ltIdx : Fin 16) : H264eDpb :=
  let dpb := { dpb with nextMaxLtIdx := dpb.info.maxLtIdx }
  if dpb.nextMaxLtIdx ≠ dpb.currMaxLtIdx then
    let op := mmcoMaxLtIdx dpb.nextMaxLtIdx
    { dpb with
      marking := { dpb.marking with list := (dpb.marking.list.wrOp op).wrOp (op.setLt ltIdx) }
      currMaxLtIdx := dpb.nextMaxLtIdx }
  else
    { dpb with
      marking := { dpb.marking with list := dpb.marking.list.wrOp (H264eMmco.setLt 0 ltIdx) } }

/-- Generate the marking of the current frame, in slot `curr`. -/
def h264eDpbBuildMarking (curr : Fin dpbFrmCnt) : H264eDpb :=
  let frm := dpb.frames.get curr
  let marking := { dpb.marking with list := dpb.marking.list.wrRewind }
  if frm.status.isIdr then
    { dpb with marking := { marking with
        idrFlag := 1
        noOutputOfPriorPics := 0
        longTermReferenceFlag := if frm.status.isLtRef then 1 else 0 } }
  else
    let dpb := { dpb with marking := { marking with
      idrFlag := 0
      longTermReferenceFlag := 0
      adaptiveRefPicBuffering := 0 } }
    if frm.status.isNonRef then dpb
    else if frm.status.isLtRef then dpb.markLt frm.ltIdx
    else dpb

/-- The dpb with the frames kept in the slots `map`, and the backup of it. -/
def H264eDpb.backup (map : List (Option (Fin dpbFrmCnt))) : H264eDpb :=
  { dpb with frames, map, rtBak := dpb.rt, frmBak := frames }

/-- The dpb with the slot of the reference, which is the current one for no reference. -/
def H264eDpb.setRefr (refr : Option (Fin dpbFrmCnt)) : H264eDpb :=
  { dpb with refr := refr.orElse fun _ => dpb.curr }

/-- Prepare the dpb for the frame `cpb.curr`. -/
def h264eDpbProc (cpb : EncCpbStatus) : Option H264eDpb := do
  let dpb := dpb.begin cpb.curr
  -- 1. scan and map cpb to internal cpb
  let (frames, map) ← mapCpb dpb.totalCnt cpb.init.toList dpb.frames
  -- 2. scan all slot for used map and find a slot for current
  let dpb := (dpb.backup frames map).scan cpb.curr
  let refr ← findCpbFrame dpb.totalCnt dpb.frames cpb.refr
  let dpb ← h264eDpbBuildList (dpb.setRefr refr) cpb
  let curr ← dpb.curr
  some (h264eDpbBuildMarking dpb curr)

/-! ## After the frame -/

/-- A frame that the long-term frame in slot `curr` takes the index of. -/
def isReplaced (curr : Fin dpbFrmCnt) (ltIdx : Fin 16) (i : Fin dpbFrmCnt) (tmp : H264eDpbFrm) :
    Bool :=
  i ≠ curr && tmp.dpbUsed && tmp.status.valid && tmp.status.isLtRef && tmp.ltIdx == ltIdx

/-- Clear slot `i` when its long-term frame is replaced. -/
def replaceLt (curr : Fin dpbFrmCnt) (ltIdx : Fin 16) (dpb : H264eDpb) (i : Fin dpbFrmCnt) :
    H264eDpb :=
  if i.val < dpb.totalCnt.val ∧ isReplaced curr ltIdx i (dpb.frames.get i) then
    { dpb with
      frames := dpb.frames.set i (dpb.frames.get i).clear
      ltSize := dpb.ltSize - 1
      usedSize := dpb.usedSize - 1 }
  else dpb

/-- A frame that the sliding window may remove. -/
def H264eDpbFrm.isRemovable (tmp : H264eDpbFrm) : Bool :=
  !tmp.asPskipRef && tmp.onUsed && tmp.status.valid && !tmp.status.isLtRef

/-- The removable frame with the smallest picture order count, below `0x7fffffff`. -/
def smallestPoc (totalCnt : Fin (dpbFrmCnt + 1)) (frames : DpbFrames) : Option (Fin dpbFrmCnt) :=
  ((List.finRange dpbFrmCnt).foldl
    (fun (unref, smallPoc) i =>
      if i.val < totalCnt.val ∧ (frames.get i).isRemovable ∧ (frames.get i).poc < smallPoc then
        (some i, (frames.get i).poc)
      else (unref, smallPoc))
    ((none : Option (Fin dpbFrmCnt)), (0x7fffffff : ℤ))).1

/-- Remove `n` frames, as long as there is one to remove. -/
def slideWindow : ℕ → H264eDpb → H264eDpb
  | 0, dpb => dpb
  | n + 1, dpb =>
    match smallestPoc dpb.totalCnt dpb.frames with
    | some unref =>
      slideWindow n { dpb with
        frames := dpb.frames.set unref { dpb.frames.get unref with dpbUsed := false }
        stSize := dpb.stSize - 1
        usedSize := dpb.usedSize - 1 }
    | none => dpb

/-- Count the frame in slot `curr`, after the long-term frames it replaces are gone. -/
def H264eDpb.insertCurr (curr : Fin dpbFrmCnt) : H264eDpb :=
  let frm := dpb.frames.get curr
  let dpb := { dpb with usedSize := dpb.usedSize + 1 }
  if frm.status.isLtRef then
    (List.finRange dpbFrmCnt).foldl (replaceLt curr frm.ltIdx) { dpb with ltSize := dpb.ltSize + 1 }
  else { dpb with stSize := dpb.stSize + 1 }

/-- The dpb after the frame in slot `curr`. -/
def H264eDpb.after (curr : Fin dpbFrmCnt) : H264eDpb :=
  if (dpb.frames.get curr).status.isNonRef then
    { dpb with frames := dpb.frames.set curr (dpb.frames.get curr).clear }
  else
    -- each round of the sliding window removes a frame while there are more than `dpb_size`
    slideWindow ((dpb.insertCurr curr).usedSize - dpb.dpbSize).toNat (dpb.insertCurr curr)

/-- Move the dpb on to the state after the frame `cpb.curr`, and look up what is kept. -/
def h264eDpbCheck (cpb : EncCpbStatus) : Option H264eDpb := do
  let curr ← dpb.curr
  let dpb := dpb.after curr
  let map ← cpb.final.toList.mapM (findCpbFrame dpb.totalCnt dpb.frames)
  some { dpb with map }

/-- Encode the frame `cpb.curr`: prepare the dpb, and move on. -/
def h264eProcDpb (cpb : EncCpbStatus) : Option H264eDpb :=
  h264eDpbProc dpb cpb >>= fun dpb => h264eDpbCheck dpb cpb

/-- The hardware layer takes a slot. -/
def h264eDpbHalStart (slotIdx : Fin dpbFrmCnt) : H264eDpb :=
  let frm := dpb.frames.get slotIdx
  { dpb with frames := dpb.frames.set slotIdx { frm with halUsed := frm.halUsed + 1 } }

/-- The hardware layer gives a slot back. -/
def h264eDpbHalEnd (slotIdx : Fin dpbFrmCnt) : H264eDpb :=
  let frm := dpb.frames.get slotIdx
  { dpb with frames := dpb.frames.set slotIdx { frm with halUsed := frm.halUsed - 1 } }

end Libmpp.H264e
