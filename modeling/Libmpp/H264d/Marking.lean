import Libmpp.Base.Err

/-!
# Reference marking in the H.264 decoder

The frame stores of the decoded picture buffer and the reference marking of
`h264d_dpb.c`: the sliding window and the memory management control operations.

A frame store holds a frame, a single field or a complementary field pair, and
which of its fields are in use, referenced and long-term. The pictures of a store
carry their own marks beside these. The buffer refers to its stores by pointer, so
a store is here an address into a heap: `fs` lists the stores in their order,
`fsRef` and `fsLtref` the first `ref_frames_in_buffer` and
`ltref_frames_in_buffer` entries of the reference lists.

The pointers between the pictures of a store, the cropping, the views of a
multi-view stream and the fields kept for it are left out, as is `layer_id`, which is
0 for all pictures of the one layer modelled. A picture that is missing from a store,
where the source would follow a null pointer, matches no condition.
-/

namespace Libmpp.H264d

open Base

inductive PictureStructure
  | topField
  | bottomField
  | frame
  deriving DecidableEq, Repr

/-- A number from 0 to 3 with a bit for each field: 1 for the top field, 2 for the
    bottom field, 3 for both or for a frame. -/
@[ext]
structure Fields where
  top : Bool
  bottom : Bool
  deriving DecidableEq, Repr

namespace Fields

abbrev empty : Fields := ⟨false, false⟩

abbrev both : Fields := ⟨true, true⟩

/-- The bit of a field, or whether a bit is set. -/
def has (b : Fields) : PictureStructure → Bool
  | .topField => b.top
  | .bottomField => b.bottom
  | .frame => b.top || b.bottom

end Fields

/-- `H264_Mem_type` -/
inductive MemType
  | null
  | malloc
  | clone
  | unPaired
  | topOnly
  | botOnly
  deriving DecidableEq, Repr

/-- A memory management control operation (`H264_DRPM_t`). -/
structure Drpm where
  memoryManagementControlOperation : ℕ
  differenceOfPicNumsMinus1 : ℤ := 0
  longTermPicNum : ℤ := 0
  longTermFrameIdx : ℤ := 0
  maxLongTermFrameIdxPlus1 : ℤ := 0
  deriving DecidableEq, Repr

/-- A picture. A new one is zero, but for its structure. -/
structure StorePic where
  picStructure : PictureStructure
  poc : ℤ := 0
  topPoc : ℤ := 0
  bottomPoc : ℤ := 0
  framePoc : ℤ := 0
  picNum : ℤ := 0
  longTermPicNum : ℤ := 0
  longTermFrameIdx : ℤ := 0
  frameNum : ℤ := 0
  isLongTerm : Bool := false
  usedForReference : Bool := false
  isOutput : Bool := false
  idrFlag : Bool := false
  noOutputOfPriorPicsFlag : Bool := false
  longTermReferenceFlag : Bool := false
  adaptiveRefPicBufferingFlag : Bool := false
  frameMbsOnlyFlag : Bool := false
  decRefPicMarkingBuffer : List Drpm := []
  combineFlag : Bool := false
  memMallocType : MemType := .null
  /-- The number of the mark of its memory. -/
  memMark : Option ℕ := none
  deriving DecidableEq, Repr

/-- A frame store. -/
structure FrameStore where
  isUsed : Fields := .empty
  isReference : Fields := .empty
  isLongTerm : Fields := .empty
  /-- The references by `nal_ref_idc`, as they came in. -/
  isOrigReference : Fields := .empty
  frameNumWrap : ℤ := 0
  longTermFrameIdx : ℤ := 0
  isOutput : Bool := false
  poc : ℤ := 0
  frameNum : ℤ := 0
  isDirectout : Bool := false
  frame : Option StorePic := none
  topField : Option StorePic := none
  bottomField : Option StorePic := none
  deriving DecidableEq, Repr

def isShortRef (s : StorePic) : Bool := s.usedForReference && !s.isLongTerm

def isLongRef (s : StorePic) : Bool := s.usedForReference && s.isLongTerm

/-- Some picture in use in the store meets `q`. -/
def FrameStore.anyPic (f : FrameStore) (q : StorePic → Bool) : Bool :=
  (f.isUsed = .both && f.frame.any q) || (f.isUsed.top && f.topField.any q) ||
    (f.isUsed.bottom && f.bottomField.any q)

/-- Change the pictures in use in the store. -/
def FrameStore.mapPics (f : FrameStore) (g : StorePic → StorePic) : FrameStore :=
  { f with
    topField := if f.isUsed.top then f.topField.map g else f.topField
    bottomField := if f.isUsed.bottom then f.bottomField.map g else f.bottomField
    frame := if f.isUsed = .both then f.frame.map g else f.frame }

def isShortTermReference (f : FrameStore) : Bool := f.anyPic isShortRef

def isLongTermReference (f : FrameStore) : Bool := f.anyPic isLongRef

def isUsedForReference (f : FrameStore) : Bool :=
  f.isReference ≠ .empty || f.anyPic (·.usedForReference)

def unmarkForReference (f : FrameStore) : FrameStore :=
  { f.mapPics fun s => { s with usedForReference := false } with isReference := .empty }

def unmarkForLongTermReference (f : FrameStore) : FrameStore :=
  { f.mapPics fun s => { s with usedForReference := false, isLongTerm := false } with
    isReference := .empty
    isLongTerm := .empty }

/-- What `last_picture` points to. -/
inductive LastPicture
  | store (i : ℕ)
  | outBuffer
  deriving DecidableEq, Repr

/-- The decoded picture buffer (`H264_DpbBuf_t`). -/
structure DpbBuf where
  size : ℕ
  usedSize : ℕ
  /-- The frame stores by their address. -/
  stores : ℕ → FrameStore
  fs : List ℕ
  fsRef : List ℕ
  fsLtref : List ℕ
  pocInterval : ℤ
  lastOutputPoc : ℤ
  maxLongTermPicIdx : ℤ
  numRefFrames : ℕ
  lastPicture : Option LastPicture
  /-- `out_buffer` of the video context, the store of the pictures that are output
      without being stored. -/
  outBuffer : FrameStore

namespace DpbBuf

/-- Change the store at an address. -/
def modify (d : DpbBuf) (i : ℕ) (g : FrameStore → FrameStore) : DpbBuf :=
  { d with stores := Function.update d.stores i (g (d.stores i)) }

/-- The stores in use, in their order. -/
def used (d : DpbBuf) : List ℕ := d.fs.take d.usedSize

/-- The store `last_picture` points to. -/
def lastStore (d : DpbBuf) : Option FrameStore :=
  d.lastPicture.map fun
    | .store i => d.stores i
    | .outBuffer => d.outBuffer

end DpbBuf

variable (d : DpbBuf)

def updateRefList : DpbBuf :=
  { d with fsRef := d.used.filter fun i => isShortTermReference (d.stores i) }

def updateLtrefList : DpbBuf :=
  { d with fsLtref := d.used.filter fun i => isLongTermReference (d.stores i) }

def getPicNumX (p : StorePic) (differenceOfPicNumsMinus1 : ℤ) : ℤ :=
  let currPicNum := if p.picStructure = .frame then p.frameNum else 2 * p.frameNum + 1
  currPicNum - (differenceOfPicNumsMinus1 + 1)

/-- The top field of the store is a reference with the mark `lt` that meets `q`. -/
def topRef (f : FrameStore) (lt : Bool) (q : StorePic → Bool) : Bool :=
  f.isReference.top && f.isLongTerm.top = lt && f.topField.any q

def bottomRef (f : FrameStore) (lt : Bool) (q : StorePic → Bool) : Bool :=
  f.isReference.bottom && f.isLongTerm.bottom = lt && f.bottomField.any q

/-- `mm_unmark_short_term_for_reference` -/
def mmUnmarkShortTermForReference (p : StorePic) (differenceOfPicNumsMinus1 : ℤ) : DpbBuf :=
  let picNumX := getPicNumX p differenceOfPicNumsMinus1
  let unmark : StorePic → StorePic := fun s => { s with usedForReference := false }
  if p.picStructure = .frame then
    match d.fsRef.find? fun i =>
        (d.stores i).isReference = .both && (d.stores i).isLongTerm = .empty &&
          (d.stores i).frame.any (·.picNum = picNumX) with
    | some i => d.modify i unmarkForReference
    | none => d
  else
    match d.fsRef.find? fun i =>
        topRef (d.stores i) false (·.picNum = picNumX) ||
          bottomRef (d.stores i) false (·.picNum = picNumX) with
    | some i =>
      if topRef (d.stores i) false (·.picNum = picNumX) then
        d.modify i fun f =>
          { f with
            topField := f.topField.map unmark
            isReference := ⟨false, f.isReference.bottom⟩
            frame := if f.isUsed = .both then f.frame.map unmark else f.frame }
      else
        d.modify i fun f =>
          { f with
            bottomField := f.bottomField.map unmark
            isReference := ⟨f.isReference.top, false⟩
            frame := if f.isUsed = .both then f.frame.map unmark else f.frame }
    | none => d

/-- Unmark the long-term stores that meet a condition on the store as it is. -/
def unmarkLongTermWhere (q : ℕ → FrameStore → Bool) : DpbBuf :=
  d.fsLtref.foldl (fun d i =>
    if q i (d.stores i) then d.modify i unmarkForLongTermReference else d) d

/-- `mm_unmark_long_term_for_reference`. The loop over the frames goes on after a
    match, the one over the fields does not. -/
def mmUnmarkLongTermForReference (p : StorePic) (longTermPicNum : ℤ) : DpbBuf :=
  let unmark : StorePic → StorePic := fun s =>
    { s with usedForReference := false, isLongTerm := false }
  if p.picStructure = .frame then
    unmarkLongTermWhere d fun _ f =>
      f.isReference = .both && f.isLongTerm = .both &&
        f.frame.any (·.longTermPicNum = longTermPicNum)
  else
    match d.fsLtref.find? fun i =>
        topRef (d.stores i) true (·.longTermPicNum = longTermPicNum) ||
          bottomRef (d.stores i) true (·.longTermPicNum = longTermPicNum) with
    | some i =>
      if topRef (d.stores i) true (·.longTermPicNum = longTermPicNum) then
        d.modify i fun f =>
          { f with
            topField := f.topField.map unmark
            isReference := ⟨false, f.isReference.bottom⟩
            isLongTerm := ⟨false, f.isLongTerm.bottom⟩
            frame := if f.isUsed = .both then f.frame.map unmark else f.frame }
      else
        d.modify i fun f =>
          { f with
            bottomField := f.bottomField.map unmark
            isReference := ⟨f.isReference.top, false⟩
            isLongTerm := ⟨f.isLongTerm.top, false⟩
            frame := if f.isUsed = .both then f.frame.map unmark else f.frame }
    | none => d

def unmarkLongTermFrameForReferenceByFrameIdx (longTermFrameIdx : ℤ) : DpbBuf :=
  unmarkLongTermWhere d fun _ f => f.longTermFrameIdx = longTermFrameIdx

/-- `unmark_long_term_field_for_reference_by_frame_idx`: of the long-term stores with the
    index, the one that holds the other field of the frame being marked is kept. -/
def unmarkLongTermFieldForReferenceByFrameIdx (maxFrameNum : ℤ)
    (picStructure : PictureStructure) (longTermFrameIdx : ℤ) (markCurrent : Bool)
    (currFrameNum currPicNum : ℤ) : DpbBuf :=
  let currPicNum := if currPicNum < 0 then currPicNum + 2 * maxFrameNum else currPicNum
  unmarkLongTermWhere d fun i f =>
    f.longTermFrameIdx = longTermFrameIdx &&
      (f.isLongTerm.has picStructure ||
        if markCurrent then
          d.lastPicture ≠ some (.store i) || f.frameNum ≠ currFrameNum
        else f.frameNum ≠ currPicNum / 2)

/-- Mark the frame of a store, and its fields, as a long-term reference. -/
def markFrameLongTerm (longTermFrameIdx : ℤ) (f : FrameStore) : FrameStore :=
  let mark : StorePic → StorePic := fun s =>
    { s with
      longTermFrameIdx := longTermFrameIdx
      longTermPicNum := longTermFrameIdx
      isLongTerm := true }
  let split := f.topField.isSome && f.bottomField.isSome
  { f with
    longTermFrameIdx := longTermFrameIdx
    frame := f.frame.map mark
    topField := if split then f.topField.map mark else f.topField
    bottomField := if split then f.bottomField.map mark else f.bottomField
    isLongTerm := .both }

/-- `mark_pic_long_term` -/
def markPicLongTerm (p : StorePic) (longTermFrameIdx picNumX : ℤ) : DpbBuf :=
  let q : StorePic → Bool := fun s => !s.isLongTerm && s.picNum = picNumX
  if p.picStructure = .frame then
    match d.fsRef.find? fun i =>
        (d.stores i).isReference = .both && (d.stores i).frame.any q with
    | some i => d.modify i (markFrameLongTerm longTermFrameIdx)
    | none => d
  else
    let addTop : ℤ := if p.picStructure = .topField then 1 else 0
    let addBottom : ℤ := if p.picStructure = .topField then 0 else 1
    let top : FrameStore → Bool := fun f => f.isReference.top && f.topField.any q
    let bottom : FrameStore → Bool := fun f => f.isReference.bottom && f.bottomField.any q
    let markFrame : FrameStore → FrameStore := fun f =>
      if f.isLongTerm = .both then
        { f with
          frame := f.frame.map fun s =>
            { s with
              isLongTerm := true
              longTermFrameIdx := longTermFrameIdx
              longTermPicNum := longTermFrameIdx } }
      else f
    match d.fsRef.find? fun i => top (d.stores i) || bottom (d.stores i) with
    | some i =>
      if top (d.stores i) then
        d.modify i fun f => markFrame
          { f with
            longTermFrameIdx := longTermFrameIdx
            topField := f.topField.map fun s =>
              { s with
                longTermFrameIdx := longTermFrameIdx
                longTermPicNum := 2 * longTermFrameIdx + addTop
                isLongTerm := true }
            isLongTerm := ⟨true, f.isLongTerm.bottom⟩ }
      else
        d.modify i fun f => markFrame
          { f with
            longTermFrameIdx := longTermFrameIdx
            bottomField := f.bottomField.map fun s =>
              { s with
                longTermFrameIdx := longTermFrameIdx
                longTermPicNum := 2 * longTermFrameIdx + addBottom
                isLongTerm := true }
            isLongTerm := ⟨f.isLongTerm.top, true⟩ }
    | none => d

/-- `mm_assign_long_term_frame_idx`. Its return value is not looked at. -/
def mmAssignLongTermFrameIdx (maxFrameNum : ℤ) (p : StorePic)
    (differenceOfPicNumsMinus1 longTermFrameIdx : ℤ) : DpbBuf :=
  let picNumX := getPicNumX p differenceOfPicNumsMinus1
  if p.picStructure = .frame then
    markPicLongTerm (unmarkLongTermFrameForReferenceByFrameIdx d longTermFrameIdx) p
      longTermFrameIdx picNumX
  else
    let top : FrameStore → Bool := fun f =>
      f.isReference.top && f.topField.any (·.picNum = picNumX)
    let bottom : FrameStore → Bool := fun f =>
      f.isReference.bottom && f.bottomField.any (·.picNum = picNumX)
    match d.fsRef.find? fun i => top (d.stores i) || bottom (d.stores i) with
    | some i =>
      let picStructure := if top (d.stores i) then .topField else .bottomField
      markPicLongTerm
        (unmarkLongTermFieldForReferenceByFrameIdx d maxFrameNum picStructure longTermFrameIdx
          false 0 picNumX) p longTermFrameIdx picNumX
    | none => d

def mmUpdateMaxLongTermFrameIdx (maxLongTermFrameIdxPlus1 : ℤ) : DpbBuf :=
  unmarkLongTermWhere { d with maxLongTermPicIdx := maxLongTermFrameIdxPlus1 - 1 }
    fun _ f => maxLongTermFrameIdxPlus1 - 1 < f.longTermFrameIdx

def mmUnmarkAllShortTermForReference : DpbBuf :=
  updateRefList (d.fsRef.foldl (fun d i => d.modify i unmarkForReference) d)

def mmUnmarkAllLongTermForReference : DpbBuf :=
  mmUpdateMaxLongTermFrameIdx d 0

/-- `mm_mark_current_picture_long_term`, with the picture it marks. -/
def mmMarkCurrentPictureLongTerm (maxFrameNum : ℤ) (p : StorePic)
    (longTermFrameIdx : ℤ) : DpbBuf × StorePic :=
  (if p.picStructure = .frame then
      unmarkLongTermFrameForReferenceByFrameIdx d longTermFrameIdx
    else
      unmarkLongTermFieldForReferenceByFrameIdx d maxFrameNum p.picStructure longTermFrameIdx
        true p.picNum 0,
    { p with isLongTerm := true, longTermFrameIdx := longTermFrameIdx })

/-- `sliding_window_memory_management`: unmark the first short-term store. -/
def slidingWindowMemoryManagement : DpbBuf :=
  if d.fsRef.length + d.fsLtref.length = max 1 d.numRefFrames then
    match d.used.find? fun i =>
        (d.stores i).isReference ≠ .empty && (d.stores i).isLongTerm = .empty with
    | some i => updateRefList (d.modify i unmarkForReference)
    | none => d
  else d

def checkNumRef : DpbBuf :=
  if max 1 d.numRefFrames < d.fsLtref.length + d.fsRef.length then
    slidingWindowMemoryManagement d
  else d

/-- `FrameNumWrap` of a store, for a slice with the given `frame_num`. -/
def frameNumWrap (frameNum maxFrameNum currFrameNum : ℤ) : ℤ :=
  if currFrameNum < frameNum then frameNum - maxFrameNum else frameNum

/-- The picture number of a short-term frame. -/
def numberShortFrame (maxFrameNum currFrameNum : ℤ) (f : FrameStore) : FrameStore :=
  if f.isUsed = .both ∧ f.frame.any isShortRef then
    let wrap := frameNumWrap f.frameNum maxFrameNum currFrameNum
    { f with
      frameNumWrap := wrap
      frame := f.frame.map fun s => { s with picNum := wrap } }
  else f

/-- The long-term picture number of a frame. -/
def numberLongFrame (f : FrameStore) : FrameStore :=
  if f.isUsed = .both then
    { f with
      frame := f.frame.map fun s =>
        if s.isLongTerm then { s with longTermPicNum := s.longTermFrameIdx } else s }
  else f

/-- `update_pic_num`: the numbers of the references for the slices of the picture `p`. -/
def updatePicNum (maxFrameNum : ℤ) (p : StorePic) : DpbBuf :=
  let addTop : ℤ := if p.picStructure = .topField then 1 else 0
  let addBottom : ℤ := if p.picStructure = .topField then 0 else 1
  if p.idrFlag then d
  else if p.picStructure = .frame then
    let d := d.fsRef.foldl
      (fun d i => d.modify i (numberShortFrame maxFrameNum p.frameNum)) d
    d.fsLtref.foldl (fun d i => d.modify i numberLongFrame) d
  else
    let d := d.fsRef.foldl (fun d i => d.modify i fun f =>
      if f.isReference ≠ .empty then
        let wrap := frameNumWrap f.frameNum maxFrameNum p.frameNum
        { f with
          frameNumWrap := wrap
          topField :=
            if f.isReference.top then
              f.topField.map fun s => { s with picNum := 2 * wrap + addTop }
            else f.topField
          bottomField :=
            if f.isReference.bottom then
              f.bottomField.map fun s => { s with picNum := 2 * wrap + addBottom }
            else f.bottomField }
      else f) d
    d.fsLtref.foldl (fun d i => d.modify i fun f =>
      { f with
        topField :=
          if f.isLongTerm.top then
            f.topField.map fun s =>
              { s with longTermPicNum := 2 * s.longTermFrameIdx + addTop }
          else f.topField
        bottomField :=
          if f.isLongTerm.bottom then
            f.bottomField.map fun s =>
              { s with longTermPicNum := 2 * s.longTermFrameIdx + addBottom }
          else f.bottomField }) d

end Libmpp.H264d
