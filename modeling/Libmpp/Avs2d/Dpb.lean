import Mathlib
import Libmpp.Lib.Widths

/-!
# The frame buffer of the AVS2 decoder

The decoder keeps its pictures in `dpb`, an array of frames. A frame in use holds a buffer
slot. It waits for output (`isOutput` is not set yet), or pictures still refer to it: other
pictures (`referedByOthers`), or as the scene picture (`referedByScene`), which `sceneRef`
points to. For each picture header, `avs2dDpbInsert` computes the order of the picture, puts
at most one frame on the display queue, removes the frames no longer needed and takes a frame
for the picture; `avs2dDpbFlush` empties the buffer.

A slot is named by the number of slots taken before it, so no two frames ever have the same.
-/

namespace Libmpp.Avs2d

/-- `AVS2_MAX_DPB_SIZE`, to which `dpb_size` is set. -/
abbrev maxDpbSize : ℕ := 15

/-- `AVS2_DOI_CYCLE` -/
abbrev doiCycle : ℤ := 256

/-- `AVS2_MAX_POC_DISTANCE` -/
abbrev maxPocDistance : ℤ := 128

/-- `NO_VAL`, as an order index. A frame that is not in use has no slot. -/
abbrev noVal : ℤ := -1

/-- `INT_MAX` -/
abbrev intMax : ℤ := 2147483647

/-- `Avs2dPicType` -/
inductive Avs2dPicType
  | i | p | b | f | g | gb | s
deriving DecidableEq

/-- The picture is a scene picture, `G_PICTURE` or `GB_PICTURE`. -/
def Avs2dPicType.isScene (t : Avs2dPicType) : Bool := t = .g || t = .gb

/-- `Avs2dFrame_t`. A frame that is not in use is as `dpb_remove_frame` leaves it. -/
structure Avs2dFrame where
  slotIdx : Option ℕ := none
  doi : ℤ := noVal
  poi : ℤ := noVal
  outDelay : ℕ := 0
  pictureType : Avs2dPicType := .i
  invisible : Bool := false
  sceneFrameFlag : Bool := false
  referedByOthers : Bool := false
  referedByScene : Bool := false
  isOutput : Bool := false
deriving DecidableEq

/-- `Avs2dSeqHeader_t`, the fields that the frame buffer depends on. The delay is read in
    5 bits. -/
structure Avs2dSeqHeader where
  lowDelay : Bool
  pictureReorderDelay : Fin 32
  fieldCodedSequence : Bool

/-- `Avs2dPicHeader_t`, with the decoding order index as it is read, in 8 bits. The parser
    lets no delay from 64 on through. -/
structure Avs2dPicHeader where
  pictureType : Avs2dPicType
  doi : Fin 256
  pictureOutputDelay : Fin 64

/-- `Avs2dRps_t` -/
structure Avs2dRps where
  refPic : List ℕ := []
  removePic : List ℕ := []
  referedByOthers : Bool := false

/-- `Avs2dFrameMgr_t`, with what is behind `frame_slots`: the slots taken so far (`slots`),
    those marked `SLOT_CODEC_USE` and the display queue. The rest is a history that the
    decoder does not keep: the slots in the order they were released, the frames in use that
    another picture was put in place of, and the pictures that got a frame, each with its slot
    and order index. -/
structure Avs2dFrameMgr where
  usedSize : ℕ := 0
  dpb : Fin maxDpbSize → Avs2dFrame := fun _ => {}
  sceneRef : Option (Fin maxDpbSize) := none
  curFrm : Option (Fin maxDpbSize) := none
  prevDoi : ℤ := noVal
  outputPoi : ℤ := noVal
  trWrapCnt : ℤ := 0
  slots : ℕ := 0
  codecUse : Finset ℕ := ∅
  display : List ℕ := []
  released : List ℕ := []
  overwritten : List Avs2dFrame := []
  pictures : List (ℕ × Avs2dPicType × ℤ) := []

variable (m : Avs2dFrameMgr)

/-- The buffer with another frame at `i`. -/
def Avs2dFrameMgr.setFrame (i : Fin maxDpbSize) (p : Avs2dFrame) :
    Avs2dFrameMgr := { m with dpb := Function.update m.dpb i p }

/-! ## The order of the pictures -/

/-- The frame is no longer referred to, when `MPP_ABS(ph->doi - p->doi % AVS2_DOI_CYCLE) > 1`. -/
def unmarkDistant (doi : ℤ) (p : Avs2dFrame) : Avs2dFrame :=
  if p.slotIdx ≠ none ∧ 1 < |doi - p.doi.tmod doiCycle| then
    { p with referedByOthers := false, referedByScene := false }
  else p

/-- The order indices of a frame in use, `wrapOi` less. -/
def wrapFrame (wrapOi : ℤ) (p : Avs2dFrame) : Avs2dFrame :=
  if p.slotIdx = none then p else { p with doi := p.doi - wrapOi, poi := p.poi - wrapOi }

/-- `recompute_cycle_order_index` -/
def recomputeCycleOrderIndex (doi : ℤ) : Avs2dFrameMgr × ℤ :=
  if doi < intMax - 2 * doiCycle then (m, doi)
  else
    let wrapOi := (m.trWrapCnt - 1) * doiCycle
    ({ m with
        dpb := fun i => wrapFrame wrapOi (m.dpb i)
        outputPoi := if m.outputPoi ≠ noVal then m.outputPoi - wrapOi else m.outputPoi },
      doi - wrapOi)

/-- The part of `compute_frame_order_index` for an order index that does not follow the one
    before. -/
def unmarkDiscontinuous (doi : ℤ) : Avs2dFrameMgr :=
  if m.outputPoi ≠ noVal ∧ doi ≠ (m.prevDoi + 1).tmod doiCycle then
    { m with dpb := fun i => unmarkDistant doi (m.dpb i) }
  else m

/-- The part of `compute_frame_order_index` that counts the cycles. -/
def updateDoi (doi : ℤ) : Avs2dFrameMgr :=
  { m with
    trWrapCnt := if doi < m.prevDoi then m.trWrapCnt + 1 else m.trWrapCnt
    prevDoi := doi }

/-- The output order index of a picture with the decoding order index `doi`. -/
def poiOf (vsh : Avs2dSeqHeader) (ph : Avs2dPicHeader) (doi : ℤ) : ℤ :=
  if vsh.lowDelay then doi
  else doi + (ph.pictureOutputDelay : ℕ) - (vsh.pictureReorderDelay : ℕ)

/-- The part of `compute_frame_order_index` for the first picture of type I. -/
def startOutput (t : Avs2dPicType) (poi : ℤ) : Avs2dFrameMgr :=
  if m.outputPoi = noVal ∧ t = .i then { m with outputPoi := poi } else m

/-- `compute_frame_order_index`, with the order indices of the picture: decoding order, then
    output order. -/
def computeFrameOrderIndex (vsh : Avs2dSeqHeader) (ph : Avs2dPicHeader) : Avs2dFrameMgr × ℤ × ℤ :=
  let phDoi : ℤ := (ph.doi : ℕ)
  let m := updateDoi (unmarkDiscontinuous m phDoi) phDoi
  let r := recomputeCycleOrderIndex m (phDoi + m.trWrapCnt * doiCycle)
  let poi := poiOf vsh ph r.2
  (startOutput r.1 ph.pictureType poi, r.2, poi)

/-! ## Output and removal -/

/-- `is_outputable_frame` -/
def isOutputableFrame (p : Avs2dFrame) : Bool := p.slotIdx ≠ none && !p.invisible && !p.isOutput

/-- `get_outputable_smallest_poi`: where the frame is, if there is one. -/
def getOutputableSmallestPoi : Option (Fin maxDpbSize) :=
  ((List.finRange maxDpbSize).foldl
    (fun (s : Option (Fin maxDpbSize) × ℤ) i =>
      if isOutputableFrame (m.dpb i) ∧ (m.dpb i).poi < s.2 then (some i, (m.dpb i).poi) else s)
    (none, intMax)).1

/-- The frame at `i`, in the slot `slot`, goes to the display queue. -/
def Avs2dFrameMgr.shown (i : Fin maxDpbSize) (slot : ℕ) : Avs2dFrameMgr :=
  { m.setFrame i { m.dpb i with isOutput := true } with
    outputPoi := (m.dpb i).poi
    display := m.display ++ [slot] }

/-- `output_display_frame`, `none` for `MPP_NOK`. -/
def outputDisplayFrame (i : Fin maxDpbSize) : Option Avs2dFrameMgr :=
  match (m.dpb i).slotIdx with
  | none => none
  | some slot =>
    if !(m.dpb i).invisible && !(m.dpb i).isOutput then some (m.shown i slot) else none

/-- `dpb_remove_frame` -/
def dpbRemoveFrame (i : Fin maxDpbSize) : Avs2dFrameMgr :=
  let slot := (m.dpb i).slotIdx.toList
  { m.setFrame i {} with
    codecUse := m.codecUse \ slot.toFinset
    released := m.released ++ slot
    usedSize := m.usedSize - 1 }

/-- `is_refered` -/
def isRefered (p : Avs2dFrame) : Bool := p.referedByOthers || p.referedByScene

/-- `unmark_refered` -/
def unmarkRefered (p : Avs2dFrame) : Avs2dFrame :=
  { p with referedByScene := false, referedByOthers := false }

/-- `dpb_remove_scene_frame`, for a picture of type `t`. -/
def dpbRemoveSceneFrame (t : Avs2dPicType) : Avs2dFrameMgr :=
  if t.isScene then
    match m.sceneRef with
    | none => m
    | some i =>
      let m := m.setFrame i { m.dpb i with referedByScene := false }
      let m := if (m.dpb i).pictureType = .gb then dpbRemoveFrame m i else m
      { m with sceneRef := none }
  else m

/-- The frame is no longer referred to when it is `AVS2_MAX_POC_DISTANCE` or more away. -/
def unmarkFar (poi : ℤ) (p : Avs2dFrame) : Avs2dFrame :=
  if maxPocDistance ≤ |p.poi - poi| then
    { p with referedByOthers := false, referedByScene := false }
  else p

/-- One round of the loop in `dpb_remove_unused_frame`, `poi` being that of the picture
    header. -/
def removeUnusedStep (poi : ℤ) (m : Avs2dFrameMgr) (i : Fin maxDpbSize) : Avs2dFrameMgr :=
  if (m.dpb i).slotIdx = none then m
  else
    let p := unmarkFar poi (m.dpb i)
    if (p.isOutput || p.invisible) && !isRefered p then dpbRemoveFrame (m.setFrame i p) i
    else m.setFrame i p

/-- `dpb_remove_unused_frame` -/
def dpbRemoveUnusedFrame (poi : ℤ) : Avs2dFrameMgr :=
  (List.finRange maxDpbSize).foldl (removeUnusedStep poi) m

/-- The frame at `i` should have been output before the current one was decoded. When a frame
    waits, there is a current one. -/
def overdue (i : Fin maxDpbSize) : Bool :=
  match m.curFrm with
  | none => false
  | some c => (m.dpb i).doi + (m.dpb i).outDelay < (m.dpb c).doi

/-- `dpb_output_next_frame`, `none` for `MPP_NOK`, which leaves the buffer as it is. -/
def dpbOutputNextFrame (continuous : Bool) : Option Avs2dFrameMgr :=
  match getOutputableSmallestPoi m with
  | none => none
  | some pos =>
    if (m.dpb pos).poi - m.outputPoi ≤ 1 ∨ overdue m pos ∨ !continuous then
      (outputDisplayFrame m pos).map fun m =>
        if !isRefered (m.dpb pos) then dpbRemoveFrame m pos else m
    else none

/-! ## The picture that is decoded -/

/-- `dpb_get_one_frame`: the frame that the field before is in, or the first one not in use,
    or the last one. -/
def dpbGetOneFrame (vsh : Avs2dSeqHeader) (poi : ℤ) : Fin maxDpbSize :=
  let paired :=
    if vsh.fieldCodedSequence then
      (List.finRange maxDpbSize).find? fun i => (m.dpb i).slotIdx ≠ none ∧ (m.dpb i).poi = poi
    else none
  let unused := (List.finRange maxDpbSize).find? fun i => (m.dpb i).slotIdx = none
  paired.getD (unused.getD (Fin.last _))

/-- `dpb_alloc_frame`, with the frame at `cur` from `dpb_get_one_frame`. -/
def dpbAllocFrame (cur : Fin maxDpbSize) (ph : Avs2dPicHeader) (doi poi : ℤ)
    (rps : Avs2dRps) : Avs2dFrameMgr :=
  let p := m.dpb cur
  let sceneFrameFlag := ph.pictureType.isScene
  { m.setFrame cur { p with
      slotIdx := some m.slots
      doi, poi
      outDelay := ph.pictureOutputDelay
      pictureType := ph.pictureType
      invisible := ph.pictureType = .gb
      sceneFrameFlag
      referedByScene := sceneFrameFlag
      referedByOthers := ph.pictureType ≠ .gb && rps.referedByOthers } with
    slots := m.slots + 1
    usedSize := m.usedSize + 1
    overwritten := if p.slotIdx = none then m.overwritten else m.overwritten ++ [p]
    pictures := m.pictures ++ [(m.slots, ph.pictureType, poi)] }

/-- `find_ref_frame` -/
def findRefFrame (doi : ℤ) : Option (Fin maxDpbSize) :=
  (List.finRange maxDpbSize).find? fun i =>
    (m.dpb i).slotIdx ≠ none ∧ (m.dpb i).doi ≠ noVal ∧ 0 ≤ (m.dpb i).doi ∧ doi = (m.dpb i).doi

/-- One round of the loop in `dpb_set_frame_refs`, what it does to the slot of the reference. -/
def setRefStep (cur : Fin maxDpbSize) (m : Avs2dFrameMgr) (delta : ℕ) : Avs2dFrameMgr :=
  match findRefFrame m ((m.dpb cur).doi - delta) with
  | none => m
  | some i => { m with codecUse := m.codecUse ∪ (m.dpb i).slotIdx.toList.toFinset }

/-- `dpb_set_frame_refs` -/
def dpbSetFrameRefs (cur : Fin maxDpbSize) (rps : Avs2dRps) : Avs2dFrameMgr :=
  rps.refPic.foldl (setRefStep cur) m

/-- The part of `dpb_update_refs` for a scene picture. -/
def updateSceneRef (cur : Fin maxDpbSize) : Avs2dFrameMgr :=
  if (m.dpb cur).referedByScene then { m with sceneRef := some cur } else m

/-- One round of the loop in `dpb_update_refs`. -/
def removeRefStep (cur : Fin maxDpbSize) (m : Avs2dFrameMgr) (delta : ℕ) : Avs2dFrameMgr :=
  match findRefFrame m ((m.dpb cur).doi - delta) with
  | none => m
  | some i => m.setFrame i { m.dpb i with referedByOthers := false }

/-- `dpb_update_refs` -/
def dpbUpdateRefs (rps : Avs2dRps) : Avs2dFrameMgr :=
  match m.curFrm with
  | none => m
  | some cur => rps.removePic.foldl (removeRefStep cur) (updateSceneRef m cur)

/-! ## Pictures and flushes -/

/-- The part of `avs2d_dpb_insert` that outputs a frame and removes those no longer needed. -/
def dpbMakeRoom (t : Avs2dPicType) (poi : ℤ) : Avs2dFrameMgr :=
  let m := (dpbOutputNextFrame m true).getD m
  let m := dpbRemoveSceneFrame m t
  dpbRemoveUnusedFrame m poi

/-- `avs2d_dpb_insert` -/
def avs2dDpbInsert (vsh : Avs2dSeqHeader) (ph : Avs2dPicHeader) (rps : Avs2dRps) : Avs2dFrameMgr :=
  let r := computeFrameOrderIndex m vsh ph
  let m := dpbMakeRoom r.1 ph.pictureType r.2.2
  let cur := dpbGetOneFrame m vsh r.2.2
  let m := dpbAllocFrame m cur ph r.2.1 r.2.2 rps
  let m := { m with
    curFrm := some cur
    codecUse := m.codecUse ∪ (m.dpb cur).slotIdx.toList.toFinset }
  let m := dpbSetFrameRefs m cur rps
  dpbUpdateRefs m rps

/-- The second loop of `avs2d_dpb_flush`. -/
def outputAll : ℕ → Avs2dFrameMgr → Avs2dFrameMgr
  | 0, m => m
  | fuel + 1, m =>
    if m.usedSize = 0 then m
    else
      match dpbOutputNextFrame m false with
      | none => m
      | some m => outputAll fuel m

/-- `dpb_init_management` -/
def dpbInitManagement : Avs2dFrameMgr :=
  { m with
    prevDoi := noVal
    outputPoi := noVal
    trWrapCnt := 0
    sceneRef := none
    curFrm := none
    usedSize := 0 }

/-- The first loop of `avs2d_dpb_flush`. -/
def unmarkAll : Avs2dFrameMgr :=
  { m with dpb := fun i =>
      if (m.dpb i).slotIdx ≠ none then unmarkRefered (m.dpb i) else m.dpb i }

/-- `avs2d_dpb_flush`, `poi` being that of the picture header. No round of its loop is left out:
    each outputs a frame and removes it (`OnlyWaiting.outputAll`). -/
def avs2dDpbFlush (poi : ℤ) : Avs2dFrameMgr :=
  dpbInitManagement (outputAll (maxDpbSize + 1) (dpbRemoveUnusedFrame (unmarkAll m) poi))

/-- What the parser calls: for a picture with its headers, to flush the buffer, and to remove
    unused frames (`avs2d_flush`), with the order index in the picture header. -/
inductive Call
  | insert (vsh : Avs2dSeqHeader) (ph : Avs2dPicHeader) (rps : Avs2dRps)
  | dpbFlush (poi : ℤ)
  | flush (poi : ℤ)

/-- One call. -/
def call : Call → Avs2dFrameMgr
  | .insert vsh ph rps => avs2dDpbInsert m vsh ph rps
  | .dpbFlush poi => avs2dDpbFlush m poi
  | .flush poi => dpbRemoveUnusedFrame m poi

end Libmpp.Avs2d
