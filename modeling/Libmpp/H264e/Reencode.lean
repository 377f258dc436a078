import Libmpp.H264e.Frame
import Libmpp.Lib.Machine

/-!
# Encoding a frame again

A frame that is encoded again starts from the backup of the slots and of the running
numbers that `h264eDpbProc` has taken: it is given the same slot, number and
reference (`Prepares.again`). What is not in the backup has moved on with the first
run: the counters, and the announced long-term index. The second run gives the same
output if these happen to be in order (`reencode_sameOutput_iff`), that is, if the
frame is not a reference, or it takes the place of exactly one other frame and
announces no long-term index.
-/

namespace Libmpp.H264e

open EncRef Option

/-! ## The slots of a frame -/

/-- The slots of the frames kept before the current one. -/
def H264eDpb.shown (dpb : H264eDpb) (cpb : EncCpbStatus) : List (Option (Fin dpbFrmCnt)) :=
  (cpb.init.toList.mapM (findCpbFrame dpb.totalCnt (dpb.begin cpb.curr).frames)).getD []

/-- The slot the current frame takes, the first that is free. -/
def H264eDpb.currSlot (dpb : H264eDpb) (cpb : EncCpbStatus) : Option (Fin dpbFrmCnt) :=
  freeSlot (dpb.shown cpb) (markUsed (dpb.shown cpb) (dpb.begin cpb.curr).frames)

/-- The slots when the current frame has taken its own. An inter frame also refreshes
    the status of the frames kept. -/
def H264eDpb.slots (dpb : H264eDpb) (cpb : EncCpbStatus) : DpbFrames :=
  let frames := (dpb.mapped cpb (dpb.shown cpb)).scanned cpb.curr
  if cpb.curr.isIntra then frames else refreshed dpb.totalCnt cpb.init.toList frames

/-! ## What a frame leaves alone -/

/-- What the rest of a frame leaves alone once its slot is found. -/
structure SameRecord (dpb dpb' : H264eDpb) : Prop where
  info : dpb'.info = dpb.info
  dpbSize : dpb'.dpbSize = dpb.dpbSize
  totalCnt : dpb'.totalCnt = dpb.totalCnt
  maxFrmNum : dpb'.maxFrmNum = dpb.maxFrmNum
  maxPocLsb : dpb'.maxPocLsb = dpb.maxPocLsb
  pocType : dpb'.pocType = dpb.pocType
  curr : dpb'.curr = dpb.curr
  refr : dpb'.refr = dpb.refr
  rt : dpb'.rt = dpb.rt
  rtBak : dpb'.rtBak = dpb.rtBak
  frmBak : dpb'.frmBak = dpb.frmBak
  reorder : dpb'.reorder = dpb.reorder

/-! ## The second run -/

theorem begin_of_not_idr {curr : EncFrmStatus} (h : curr.isIdr = false) (dpb : H264eDpb) :
    ∃ rt frames, dpb.begin curr = { dpb with rt, frames } := by
  rw [H264eDpb.begin, h, if_neg Bool.false_ne_true]
  split_ifs
  · exact ⟨_, _, rfl⟩
  · exact ⟨_, _, rfl⟩

theorem begin_again {dpb : H264eDpb} {curr : EncFrmStatus} (h : curr.isIdr = false)
    (hseq : curr.seqIdx = dpb.rt.lastSeqIdx) :
    dpb.begin curr = { dpb with rt := dpb.rtBak, frames := dpb.frmBak } := by
  rw [H264eDpb.begin, h, if_neg Bool.false_ne_true, if_pos hseq]

/-- Where the current frame goes depends on the mapped slots and the running numbers. -/
theorem scanned_congr {dpb dpb' : H264eDpb} (hmap : dpb'.map = dpb.map)
    (hframes : dpb'.frames = dpb.frames) (hrt : dpb'.rt = dpb.rt)
    (hnum : dpb'.maxFrmNum = dpb.maxFrmNum) (hlsb : dpb'.maxPocLsb = dpb.maxPocLsb)
    (htype : dpb'.pocType = dpb.pocType) (curr : EncFrmStatus) :
    dpb'.scanned curr = dpb.scanned curr := by
  have hfrm : dpb'.currFrm curr = dpb.currFrm curr := by
    funext p
    simp only [H264eDpb.currFrm, H264eDpb.currFrmNum, H264eDpb.currPoc, hrt, hnum, hlsb, htype]
  rw [H264eDpb.scanned, H264eDpb.scanned, hmap, hframes, hfrm]

variable {dpb l d : H264eDpb} {cpb : EncCpbStatus} {map : List (Option (Fin dpbFrmCnt))}
  {c : Fin dpbFrmCnt} {refr : Option (Fin dpbFrmCnt)}

/-- Of a frame that does not empty the dpb, the start changes the slots and the
    running numbers only. -/
theorem placed_of_not_idr (hidr : cpb.curr.isIdr = false)
    (hc : ((dpb.mapped cpb map).scan cpb.curr).curr = some c) (refr : Option (Fin dpbFrmCnt)) :
    ((dpb.mapped cpb map).scan cpb.curr).setRefr refr =
      { dpb with
        frames := (dpb.mapped cpb map).scanned cpb.curr
        map
        rt := (dpb.mapped cpb map).currRt cpb.curr
        rtBak := (dpb.begin cpb.curr).rt
        frmBak := markUsed map (dpb.begin cpb.curr).frames
        curr := some c
        refr := refr.orElse fun _ => some c } := by
  obtain ⟨rt, frames, hbegin⟩ := begin_of_not_idr hidr dpb
  rw [placed_eq hc]
  generalize (dpb.mapped cpb map).scanned cpb.curr = frames'
  generalize (dpb.mapped cpb map).currRt cpb.curr = rt'
  rw [hbegin]

/-- What is known of a prepared frame from the state before it. -/
structure Prepared (dpb : H264eDpb) (cpb : EncCpbStatus) (c : Fin dpbFrmCnt) (l : H264eDpb) :
    Prop where
  currSlot : dpb.currSlot cpb = some c
  frames : l.frames = dpb.slots cpb
  curr : l.curr = some c
  info : l.info = dpb.info
  dpbSize : l.dpbSize = dpb.dpbSize
  totalCnt : l.totalCnt = dpb.totalCnt
  usedSize : l.usedSize = dpb.usedSize
  currMaxLtIdx : l.currMaxLtIdx = dpb.currMaxLtIdx

theorem Prepares.prepared (h : Prepares dpb cpb map c refr l) (hidr : cpb.curr.isIdr = false) :
    Prepared dpb cpb c l := by
  have hshown : dpb.shown cpb = map := by rw [H264eDpb.shown, h.find_init, getD_some]
  have hslot : dpb.currSlot cpb = some c := by
    have hcurr := h.curr_eq
    rw [scan_curr] at hcurr
    rw [H264eDpb.currSlot, hshown]
    exact hcurr
  have hlist := h.list_eq
  rw [placed_of_not_idr hidr h.curr_eq] at hlist
  cases hi : cpb.curr.isIntra with
  | true =>
    rw [buildList_of_intra hi, some.injEq] at hlist
    subst hlist
    refine ⟨hslot, ?_, rfl, rfl, rfl, rfl, rfl, rfl⟩
    rw [H264eDpb.slots, hi, hshown]
    rfl
  | false =>
    obtain ⟨frames₁, stref, ltref, op, hrefs, -, rfl⟩ := (buildList_eq_some_iff hi).1 hlist
    refine ⟨hslot, ?_, rfl, rfl, rfl, rfl, rfl, rfl⟩
    rw [H264eDpb.slots, hi, hshown]
    exact listRefs_frames hrefs

/-- How a frame prepared again, from `d`, compares with what it was before. -/
structure PreparedAgain (cpb : EncCpbStatus) (l d l' : H264eDpb) : Prop where
  frames : l'.frames = l.frames
  curr : l'.curr = l.curr
  refr : l'.refr = l.refr
  reorder : l'.reorder.ops = l.reorder.ops
  info : l'.info = l.info
  dpbSize : l'.dpbSize = l.dpbSize
  totalCnt : l'.totalCnt = l.totalCnt
  usedSize : l'.usedSize = d.usedSize
  currMaxLtIdx : l'.currMaxLtIdx = d.currMaxLtIdx
  stSize : l'.stSize = if cpb.curr.isIntra then d.stSize else l.stSize
  ltSize : l'.ltSize = if cpb.curr.isIntra then d.ltSize else l.ltSize

theorem mapped_map (dpb : H264eDpb) (cpb : EncCpbStatus) (map : List (Option (Fin dpbFrmCnt))) :
    (dpb.mapped cpb map).map = map := rfl

theorem mapped_params (dpb : H264eDpb) (cpb : EncCpbStatus) (map : List (Option (Fin dpbFrmCnt))) :
    (dpb.mapped cpb map).maxFrmNum = dpb.maxFrmNum ∧
      (dpb.mapped cpb map).maxPocLsb = dpb.maxPocLsb ∧
      (dpb.mapped cpb map).pocType = dpb.pocType := by
  unfold H264eDpb.mapped H264eDpb.backup H264eDpb.begin
  split_ifs <;> exact ⟨rfl, rfl, rfl⟩

/-- The record of a frame, as its list leaves it. -/
theorem Prepares.record (h : Prepares dpb cpb map c refr l) (hidr : cpb.curr.isIdr = false) :
    l.rt = (dpb.mapped cpb map).currRt cpb.curr ∧ l.rtBak = (dpb.begin cpb.curr).rt ∧
      l.frmBak = markUsed map (dpb.begin cpb.curr).frames ∧ l.totalCnt = dpb.totalCnt ∧
      l.maxFrmNum = dpb.maxFrmNum ∧ l.maxPocLsb = dpb.maxPocLsb ∧ l.pocType = dpb.pocType := by
  have hlist := h.list_eq
  rw [placed_of_not_idr hidr h.curr_eq] at hlist
  cases hi : cpb.curr.isIntra with
  | true =>
    rw [buildList_of_intra hi, some.injEq] at hlist
    subst hlist
    exact ⟨rfl, rfl, rfl, rfl, rfl, rfl, rfl⟩
  | false =>
    obtain ⟨_, _, _, _, -, -, rfl⟩ := (buildList_eq_some_iff hi).1 hlist
    exact ⟨rfl, rfl, rfl, rfl, rfl, rfl, rfl⟩

theorem ops_listed (e e' : H264eDpb) (frames : DpbFrames) (stref ltref : List (Fin dpbFrmCnt))
    (op : Option H264eRplmo) :
    (e'.listed frames stref ltref op).reorder.ops = (e.listed frames stref ltref op).reorder.ops := by
  cases op with
  | none => rfl
  | some op =>
    rw [H264eDpb.listed, H264eDpb.listed]
    dsimp only
    rw [OpList.ops_wrOp_of_lt, OpList.ops_wrOp_of_lt]
    · rfl
    · exact (by decide : 0 < h264eMaxRefsCnt)
    · exact (by decide : 0 < h264eMaxRefsCnt)

/-- A frame is prepared again from its backup, with the same slots. -/
theorem Prepares.again (h : Prepares dpb cpb map c refr l) (hidr : cpb.curr.isIdr = false)
    (hd : SameRecord l d) : ∃ l', Prepares d cpb map c refr l' ∧ PreparedAgain cpb l d l' := by
  obtain ⟨hrt, hrtBak, hfrmBak, hcnt, hnum, hlsb, htype⟩ := h.record hidr
  have hseq : cpb.curr.seqIdx = d.rt.lastSeqIdx := by
    rw [hd.rt, hrt]
    rfl
  have hbegin := begin_again hidr hseq
  -- the slots are mapped as before
  have hframes : (d.begin cpb.curr).frames = markUsed map (dpb.begin cpb.curr).frames := by
    rw [hbegin, ← hfrmBak, ← hd.frmBak]
  have hmapped : (d.mapped cpb map).frames = (dpb.mapped cpb map).frames := by
    rw [H264eDpb.mapped, H264eDpb.backup, hframes, markUsed_markUsed]
    rfl
  have hmappedRt : (d.mapped cpb map).rt = (dpb.mapped cpb map).rt := by
    have : (d.begin cpb.curr).rt = (dpb.begin cpb.curr).rt := by
      rw [hbegin, ← hrtBak, ← hd.rtBak]
    exact this
  have htotal : d.totalCnt = dpb.totalCnt := hd.totalCnt.trans hcnt
  obtain ⟨hn, hp, ht⟩ := mapped_params d cpb map
  obtain ⟨hn', hp', ht'⟩ := mapped_params dpb cpb map
  have hscanned : (d.mapped cpb map).scanned cpb.curr = (dpb.mapped cpb map).scanned cpb.curr :=
    scanned_congr (by rw [mapped_map, mapped_map]) hmapped hmappedRt
      (by rw [hn, hn', hd.maxFrmNum, hnum]) (by rw [hp, hp', hd.maxPocLsb, hlsb])
      (by rw [ht, ht', hd.pocType, htype]) cpb.curr
  have hcurr : ((d.mapped cpb map).scan cpb.curr).curr = some c := by
    have := h.curr_eq
    rw [scan_curr, mapped_map] at this ⊢
    rw [hmapped]
    exact this
  have hinit : cpb.init.toList.mapM (findCpbFrame d.totalCnt (d.begin cpb.curr).frames) =
      some map := by
    rw [hframes, findCpbFrame_congr (sameNumbers_markUsed _ _), htotal]
    exact h.find_init
  have hrefr : findCpbFrame d.totalCnt ((d.mapped cpb map).scan cpb.curr).frames cpb.refr =
      some refr := by
    have := h.find_refr
    rw [scan_frames] at this ⊢
    rw [hscanned, htotal]
    exact this
  -- and the same list is built
  suffices hl : ∃ l', h264eDpbBuildList (((d.mapped cpb map).scan cpb.curr).setRefr refr) cpb =
      some l' ∧ PreparedAgain cpb l d l' by
    obtain ⟨l', hl', hagain⟩ := hl
    exact ⟨l', ⟨hinit, hcurr, hrefr, hl'⟩, hagain⟩
  have hlist := h.list_eq
  rw [placed_of_not_idr hidr h.curr_eq] at hlist
  rw [placed_of_not_idr hidr hcurr, hscanned]
  cases hi : cpb.curr.isIntra with
  | true =>
    rw [buildList_of_intra hi, some.injEq] at hlist
    subst hlist
    refine ⟨_, buildList_of_intra hi _, rfl, rfl, rfl, congrArg _ hd.reorder, hd.info, hd.dpbSize,
      hd.totalCnt, rfl, rfl, ?_, ?_⟩
    · rw [hi, if_pos rfl]
    · rw [hi, if_pos rfl]
  | false =>
    obtain ⟨frames, stref, ltref, op, hrefs, hop, rfl⟩ := (buildList_eq_some_iff hi).1 hlist
    refine ⟨_, (buildList_eq_some_iff hi).2 ⟨frames, stref, ltref, op, ?_, hop, rfl⟩, rfl, rfl, rfl,
      ops_listed _ _ _ _ _ _, hd.info, hd.dpbSize, hd.totalCnt, rfl, rfl, ?_, ?_⟩
    · dsimp only at hrefs ⊢
      rw [htotal]
      exact hrefs
    · rw [hi, if_neg Bool.false_ne_true]
      rfl
    · rw [hi, if_neg Bool.false_ne_true]
      rfl

/-! ## After the frame -/

theorem SameNumbers.symm {frames frames' : DpbFrames} (h : SameNumbers frames frames') :
    SameNumbers frames' frames :=
  fun i frm => (h i frm).symm

/-- Which frames are found after a frame depends on the slots before. -/
theorem sameNumbers_after (e e' : H264eDpb) (hf : e'.frames = e.frames)
    (ht : e'.totalCnt = e.totalCnt) (c : Fin dpbFrmCnt) :
    SameNumbers (e.after c).frames (e'.after c).frames ∧
      (e'.after c).totalCnt = (e.after c).totalCnt := by
  cases hn : (e.frames.get c).status.isNonRef with
  | true =>
    have hn' : (e'.frames.get c).status.isNonRef := by rw [hf, hn]
    rw [H264eDpb.after, if_pos hn, H264eDpb.after, if_pos hn', hf]
    exact ⟨fun _ _ => rfl, ht⟩
  | false =>
    have hn' : (e'.frames.get c).status.isNonRef = false := by rw [hf, hn]
    obtain ⟨frames₁, hsame₁, heq₁⟩ := after_of_ref _ hn
    obtain ⟨frames₂, hsame₂, heq₂⟩ := after_of_ref _ hn'
    rw [heq₁, heq₂]
    rw [hf, ht] at hsame₂
    exact ⟨(sameNumbers_of_sameButUsed hsame₁).symm.trans (sameNumbers_of_sameButUsed hsame₂), ht⟩

/-- What a frame leaves, from its reference list `l` on. -/
structure Finished (l : H264eDpb) (c : Fin dpbFrmCnt) (d : H264eDpb) : Prop where
  record : SameRecord l d
  nums : ∀ i, (d.frames.get i).frameNum = (l.frames.get i).frameNum ∧
    (d.frames.get i).poc = (l.frames.get i).poc
  ops : d.marking.list.ops =
    if marksLt (l.frames.get c).status then l.ltOps (l.frames.get c).ltIdx else []
  currMaxLtIdx : d.currMaxLtIdx =
    if marksLt (l.frames.get c).status then l.info.maxLtIdx else l.currMaxLtIdx
  of_nonRef : (l.frames.get c).status.isNonRef →
    d.usedSize = l.usedSize ∧ d.stSize = l.stSize ∧ d.ltSize = l.ltSize
  of_ref : (l.frames.get c).status.isNonRef = false →
    d.usedSize = l.usedSize + 1 - (replacedBy l.totalCnt l.frames c).card -
        removes l.totalCnt l.frames c l.dpbSize l.usedSize ∧
      d.stSize = l.stSize + (if (l.frames.get c).status.isLtRef then 0 else 1) -
        removes l.totalCnt l.frames c l.dpbSize l.usedSize ∧
      d.ltSize = l.ltSize + (if (l.frames.get c).status.isLtRef then 1 else 0) -
        (replacedBy l.totalCnt l.frames c).card

theorem finished (hc : l.curr = some c)
    (h : h264eDpbCheck (h264eDpbBuildMarking l c) cpb = some d) : Finished l c d := by
  obtain ⟨marking, next, hops, heq⟩ := buildMarking_spec l c
  rw [heq] at h
  obtain ⟨map, -, rfl⟩ := (h264eDpbCheck_eq_some_iff (by exact hc)).1 h
  cases hn : (l.frames.get c).status.isNonRef with
  | true =>
    rw [H264eDpb.after, if_pos (by exact hn)]
    refine ⟨⟨rfl, rfl, rfl, rfl, rfl, rfl, rfl, rfl, rfl, rfl, rfl, rfl⟩, fun i => ?_, hops, rfl,
      fun _ => ⟨rfl, rfl, rfl⟩, fun h => absurd (hn.symm.trans h) Bool.false_ne_true.symm⟩
    dsimp only
    rw [get_set_fin]
    split_ifs with hi
    · subst hi
      exact ⟨rfl, rfl⟩
    · exact ⟨rfl, rfl⟩
  | false =>
    obtain ⟨frames', hsame, hafter⟩ := after_of_ref { l with
      marking
      nextMaxLtIdx := next
      currMaxLtIdx :=
        if marksLt (l.frames.get c).status then l.info.maxLtIdx else l.currMaxLtIdx } hn
    rw [hafter]
    refine ⟨⟨rfl, rfl, rfl, rfl, rfl, rfl, rfl, rfl, rfl, rfl, rfl, rfl⟩, fun i => ?_, hops, rfl,
      fun h => absurd (hn.symm.trans h) Bool.false_ne_true, fun _ => ⟨rfl, rfl, rfl⟩⟩
    have hi := hsame i
    dsimp only at hi ⊢
    rw [hi, get_clearSlots]
    split_ifs <;> exact ⟨rfl, rfl⟩

/-! ## The same output -/

/-- The output of a frame is the same in `d'` as in `d`. -/
structure SameOutput (d d' : H264eDpb) : Prop where
  curr : d'.curr = d.curr
  frameNum : ∀ c, d.curr = some c → (d'.frames.get c).frameNum = (d.frames.get c).frameNum
  poc : ∀ c, d.curr = some c → (d'.frames.get c).poc = (d.frames.get c).poc
  refr : d'.refr = d.refr
  reorder : d'.reorder.ops = d.reorder.ops
  marking : d'.marking.list.ops = d.marking.list.ops
  usedSize : d'.usedSize = d.usedSize
  stSize : d'.stSize = d.stSize
  ltSize : d'.ltSize = d.ltSize
  currMaxLtIdx : d'.currMaxLtIdx = d.currMaxLtIdx

/-- With `used` frames counted, the reference frame in slot `c` takes the place of
    exactly one other: a long-term frame it replaces, or a frame the window removes. -/
def TakesPlace (dpb : H264eDpb) (cpb : EncCpbStatus) (c : Fin dpbFrmCnt) (used : ℤ) : Prop :=
  (replacedBy dpb.totalCnt (dpb.slots cpb) c).card +
    removes dpb.totalCnt (dpb.slots cpb) c dpb.dpbSize used = 1

/-- The number of frames counted once the frame in slot `c` is. -/
def usedAfter (dpb : H264eDpb) (cpb : EncCpbStatus) (c : Fin dpbFrmCnt) : ℤ :=
  dpb.usedSize + 1 - (replacedBy dpb.totalCnt (dpb.slots cpb) c).card -
    removes dpb.totalCnt (dpb.slots cpb) c dpb.dpbSize dpb.usedSize

/-- A frame can be encoded again: it is no reference, or it announces no long-term
    index and takes the place of exactly one frame. For an inter frame this is about
    the first run; an intra frame does not set the counters anew, and it is about a
    run that finds it counted already. -/
def Repeatable (dpb : H264eDpb) (cpb : EncCpbStatus) : Prop :=
  ∃ c, dpb.currSlot cpb = some c ∧
    (((dpb.slots cpb).get c).status.isNonRef ∨
      ¬(marksLt ((dpb.slots cpb).get c).status ∧ dpb.info.maxLtIdx ≠ dpb.currMaxLtIdx) ∧
        if cpb.curr.isIntra then
          TakesPlace dpb cpb c (usedAfter dpb cpb c) ∧
            (((dpb.slots cpb).get c).status.isLtRef →
              (replacedBy dpb.totalCnt (dpb.slots cpb) c).card = 1)
        else TakesPlace dpb cpb c dpb.usedSize)

theorem ltOps_eq_iff (e e' : H264eDpb) (hinfo : e'.info = e.info)
    (hmax : e'.currMaxLtIdx = e.info.maxLtIdx) (ltIdx : Fin 16) :
    e'.ltOps ltIdx = e.ltOps ltIdx ↔ e.info.maxLtIdx = e.currMaxLtIdx := by
  have h' : e'.ltOps ltIdx = [H264eMmco.setLt 0 ltIdx] := by
    rw [H264eDpb.ltOps, hinfo, hmax, if_neg (by simp)]
  rw [h', H264eDpb.ltOps]
  by_cases h : e.info.maxLtIdx = e.currMaxLtIdx
  · simp [h]
  · simp [h]

/-- The second run of a frame: from the list `l` of the first it leaves `d'`. -/
theorem Prepares.again_check (h : Prepares dpb cpb map c refr l) (hidr : cpb.curr.isIdr = false)
    (hc : l.curr = some c) (hcheck : h264eDpbCheck (h264eDpbBuildMarking l c) cpb = some d) :
    ∃ l' d', PreparedAgain cpb l d l' ∧ h264eProcDpb d cpb = some d' ∧ Finished l' c d' := by
  obtain ⟨l', hprep', hagain⟩ := h.again hidr (finished hc hcheck).record
  have hc' : l'.curr = some c := hagain.curr.trans hc
  obtain ⟨hframes, hcnt, hcurr⟩ := buildMarking_frames l c
  obtain ⟨hframes', hcnt', hcurr'⟩ := buildMarking_frames l' c
  obtain ⟨map', hmap', -⟩ := (h264eDpbCheck_eq_some_iff (hcurr.trans hc)).1 hcheck
  obtain ⟨hsame, htotal⟩ := sameNumbers_after (h264eDpbBuildMarking l c)
    (h264eDpbBuildMarking l' c) (by rw [hframes, hframes', hagain.frames])
    (by rw [hcnt, hcnt', hagain.totalCnt]) c
  rw [← findCpbFrame_congr hsame, ← htotal] at hmap'
  have hcheck' := (h264eDpbCheck_eq_some_iff (hcurr'.trans hc')).2 ⟨map', hmap', rfl⟩
  refine ⟨l', _, hagain, ?_, finished hc' hcheck'⟩
  rw [h264eProcDpb, bind_eq_bind, bind_eq_some_iff]
  exact ⟨_, h264eDpbProc_eq_some_iff.2 ⟨map, c, refr, l', hprep', rfl⟩, hcheck'⟩

/-- What is to be compared of the output: the rest is the same in any case. -/
theorem sameOutput_iff {l' d' : H264eDpb} (hagain : PreparedAgain cpb l d l')
    (hfin : Finished l c d) (hfin' : Finished l' c d') :
    SameOutput d d' ↔
      (¬marksLt (l.frames.get c).status ∨ l.info.maxLtIdx = l.currMaxLtIdx) ∧
        d'.usedSize = d.usedSize ∧ d'.stSize = d.stSize ∧ d'.ltSize = d.ltSize := by
  have hops : d'.marking.list.ops = d.marking.list.ops ↔
      ¬marksLt (l.frames.get c).status ∨ l.info.maxLtIdx = l.currMaxLtIdx := by
    rw [hfin'.ops, hfin.ops, hagain.frames]
    by_cases hm : marksLt (l.frames.get c).status
    · rw [if_pos hm, if_pos hm]
      have hmax : l'.currMaxLtIdx = l.info.maxLtIdx := by
        rw [hagain.currMaxLtIdx, hfin.currMaxLtIdx, if_pos hm]
      rw [ltOps_eq_iff l l' hagain.info hmax]
      simp [hm]
    · rw [if_neg hm, if_neg hm]
      simp [hm]
  refine ⟨fun h => ⟨hops.1 h.marking, h.usedSize, h.stSize, h.ltSize⟩, fun ⟨hm, hu, hs, hl⟩ =>
    ⟨?_, fun i _ => ?_, fun i _ => ?_, ?_, ?_, hops.2 hm, hu, hs, hl, ?_⟩⟩
  · rw [hfin'.record.curr, hagain.curr, hfin.record.curr]
  · rw [(hfin'.nums i).1, hagain.frames, (hfin.nums i).1]
  · rw [(hfin'.nums i).2, hagain.frames, (hfin.nums i).2]
  · rw [hfin'.record.refr, hagain.refr, hfin.record.refr]
  · rw [hfin'.record.reorder, hagain.reorder, hfin.record.reorder]
  · rw [hfin'.currMaxLtIdx, hagain.currMaxLtIdx, hagain.frames, hagain.info, hfin.currMaxLtIdx]
    split_ifs <;> rfl

/-- The counters are the same after a second run if the frame takes the place of one. -/
theorem counters_iff {l' d' : H264eDpb} (hl : Prepared dpb cpb c l)
    (hagain : PreparedAgain cpb l d l') (hfin : Finished l c d) (hfin' : Finished l' c d')
    (hn : ((dpb.slots cpb).get c).status.isNonRef = false) :
    (d'.usedSize = d.usedSize ∧ d'.stSize = d.stSize ∧ d'.ltSize = d.ltSize) ↔
      if cpb.curr.isIntra then
        TakesPlace dpb cpb c (usedAfter dpb cpb c) ∧
          (((dpb.slots cpb).get c).status.isLtRef →
            (replacedBy dpb.totalCnt (dpb.slots cpb) c).card = 1)
      else TakesPlace dpb cpb c dpb.usedSize := by
  have hn₁ : (l.frames.get c).status.isNonRef = false := by rw [hl.frames, hn]
  have hn₂ : (l'.frames.get c).status.isNonRef = false := by rw [hagain.frames, hn₁]
  obtain ⟨hused, hst, hlt⟩ := hfin.of_ref hn₁
  obtain ⟨hused', hst', hlt'⟩ := hfin'.of_ref hn₂
  rw [hl.frames, hl.totalCnt, hl.dpbSize, hl.usedSize] at hused hst
  rw [hl.frames, hl.totalCnt] at hlt
  rw [hagain.frames, hl.frames, hagain.totalCnt, hl.totalCnt] at hused' hst' hlt'
  rw [hagain.dpbSize, hl.dpbSize, hagain.usedSize] at hused' hst'
  rw [hagain.stSize] at hst'
  rw [hagain.ltSize] at hlt'
  have hafter : d.usedSize = usedAfter dpb cpb c := hused
  rw [TakesPlace, TakesPlace, ← hafter]
  rw [usedAfter] at hafter
  set r := (replacedBy dpb.totalCnt (dpb.slots cpb) c).card with hr
  set k := removes dpb.totalCnt (dpb.slots cpb) c dpb.dpbSize dpb.usedSize with hk
  set k' := removes dpb.totalCnt (dpb.slots cpb) c dpb.dpbSize d.usedSize with hk'
  have hr0 : ((dpb.slots cpb).get c).status.isLtRef = false → r = 0 := by
    intro h
    rw [hr, replacedBy, h]
    rfl
  -- a run that finds the same count removes as much
  have hkk : r + k = 1 → k' = k := by
    intro h
    have : d.usedSize = dpb.usedSize := by omega
    rw [hk', hk, this]
  cases hi : cpb.curr.isIntra with
  | true =>
    rw [hi, if_pos rfl] at hst' hlt'
    rw [if_pos rfl]
    cases hf : ((dpb.slots cpb).get c).status.isLtRef with
    | true =>
      rw [hf, if_pos rfl] at hst' hlt'
      simp only [forall_const]
      omega
    | false =>
      have := hr0 hf
      rw [hf, if_neg Bool.false_ne_true] at hst' hlt'
      simp only [Bool.false_eq_true, false_implies, and_true]
      omega
  | false =>
    rw [hi, if_neg Bool.false_ne_true] at hst' hlt'
    rw [if_neg Bool.false_ne_true]
    constructor
    · intro h
      omega
    · intro h
      have := hkk h
      omega

/-! ## Encoding again -/

/-- The calls of the dpb: a new configuration, a frame, and the use of a slot by the
    hardware layer. -/
inductive DpbOp
  | setup (info : MppEncCpbInfo) (extraBuf : Bool) (sps : H264eSps)
  | frame (cpb : EncCpbStatus)
  | halStart (slotIdx : Fin dpbFrmCnt)
  | halEnd (slotIdx : Fin dpbFrmCnt)

/-- A call of the dpb. -/
def dpbStep (dpb : H264eDpb) : DpbOp → Option H264eDpb
  | .setup info extraBuf sps => h264eDpbSetup dpb info extraBuf sps
  | .frame cpb => h264eProcDpb dpb cpb
  | .halStart slotIdx => some (h264eDpbHalStart dpb slotIdx)
  | .halEnd slotIdx => some (h264eDpbHalEnd dpb slotIdx)

/-- The dpb under its calls. -/
def dpbMachine : Machine H264eDpb DpbOp :=
  .ofPartial (h264eDpbInit .init h264eMarkingInit) dpbStep

/-- A dpb of three frames. -/
def setupThree : DpbOp :=
  .setup
    { dpbSize := 3, maxLtCnt := 0, maxStCnt := 3, maxLtIdx := 0, maxStTid := 2, ltGop := 0,
      stGop := 4 }
    false { log2MaxFrameNumMinus4 := 12, log2MaxPocLsbMinus4 := 12, picOrderCntType := 0 }

/-- The first frame of a gop. -/
def firstFrm : EncFrmStatus := { (0 : EncFrmStatus) with valid := true, isIntra := true, isIdr := true }

/-- The frame after it. -/
def secondFrm : EncFrmStatus := { (0 : EncFrmStatus) with valid := true, seqIdx := 1 }

/-- The buffer around the first frame. -/
def firstCpb : EncCpbStatus where
  curr := firstFrm
  refr := 0
  init := .replicate _ 0
  final := (Vector.replicate _ 0).set 0 firstFrm

/-- The buffer around the second frame. -/
def secondCpb : EncCpbStatus where
  curr := secondFrm
  refr := firstFrm
  init := (Vector.replicate _ 0).set 0 firstFrm
  final := ((Vector.replicate _ 0).set 0 secondFrm).set 1 firstFrm

/-- The dpb after the first frame. -/
def afterFirst : Option H264eDpb :=
  (dpbStep (h264eDpbInit .init h264eMarkingInit) setupThree).bind fun dpb =>
    h264eProcDpb dpb firstCpb

theorem reachable_afterFirst {dpb : H264eDpb} (h : afterFirst = some dpb) :
    dpbMachine.Reachable dpb := by
  obtain ⟨dpb₀, hsetup, hframe⟩ := bind_eq_some_iff.1 h
  exact .step (a := .frame firstCpb) (.step (a := setupThree) (.init rfl) hsetup) hframe

/-- A frame that is encoded again has the same output if and only if it is repeatable. -/
theorem reencode_sameOutput_iff (hidr : cpb.curr.isIdr = false)
    (h : h264eProcDpb dpb cpb = some d) :
    (∃ d', h264eProcDpb d cpb = some d' ∧ SameOutput d d') ↔ Repeatable dpb cpb := by
  rw [h264eProcDpb, bind_eq_bind, bind_eq_some_iff] at h
  obtain ⟨p, hp, hcheck⟩ := h
  obtain ⟨map, c, refr, l, hprep, rfl⟩ := h264eDpbProc_eq_some_iff.1 hp
  have hl := hprep.prepared hidr
  have hfin := finished hl.curr hcheck
  obtain ⟨l', d', hagain, hrun, hfin'⟩ := hprep.again_check hidr hl.curr hcheck
  have hrep : Repeatable dpb cpb ↔
      ((dpb.slots cpb).get c).status.isNonRef ∨
        (¬marksLt (l.frames.get c).status ∨ l.info.maxLtIdx = l.currMaxLtIdx) ∧
        if cpb.curr.isIntra then
          TakesPlace dpb cpb c (usedAfter dpb cpb c) ∧
            (((dpb.slots cpb).get c).status.isLtRef →
              (replacedBy dpb.totalCnt (dpb.slots cpb) c).card = 1)
        else TakesPlace dpb cpb c dpb.usedSize := by
    simp only [Repeatable, hl.currSlot, some.injEq, exists_eq_left', hl.frames, hl.info,
      hl.currMaxLtIdx, not_and_or, ne_eq, not_not]
  rw [hrun]
  simp only [some.injEq, exists_eq_left']
  rw [sameOutput_iff hagain hfin hfin', hrep]
  cases hn : ((dpb.slots cpb).get c).status.isNonRef with
  | true =>
    have hn₁ : (l.frames.get c).status.isNonRef := by rw [hl.frames, hn]
    have hn₂ : (l'.frames.get c).status.isNonRef := by rw [hagain.frames, hn₁]
    obtain ⟨hused, hst, hlt⟩ := hfin.of_nonRef hn₁
    obtain ⟨hused', hst', hlt'⟩ := hfin'.of_nonRef hn₂
    have hmarks : ¬marksLt (l.frames.get c).status := by simp [marksLt, hn₁]
    simp only [true_or, iff_true]
    refine ⟨.inl hmarks, hused'.trans hagain.usedSize, ?_, ?_⟩
    · rw [hst', hagain.stSize]
      split_ifs
      · rfl
      · exact hst.symm
    · rw [hlt', hagain.ltSize]
      split_ifs
      · rfl
      · exact hlt.symm
  | false =>
    simp only [Bool.false_eq_true, false_or]
    exact and_congr_right fun _ => counters_iff hl hagain hfin hfin' hn

/-- The second frame of a gop meets the hypotheses. -/
theorem reencode_sameOutput_iff_second :
    ∃ dpb d, afterFirst = some dpb ∧ h264eProcDpb dpb secondCpb = some d ∧
      ((∃ d', h264eProcDpb d secondCpb = some d' ∧ SameOutput d d') ↔
        Repeatable dpb secondCpb) := by
  have hrun : (afterFirst.bind fun dpb => h264eProcDpb dpb secondCpb).isSome := by decide +kernel
  obtain ⟨d, hrun⟩ := isSome_iff_exists.1 hrun
  obtain ⟨dpb, hfirst, hd⟩ := bind_eq_some_iff.1 hrun
  exact ⟨dpb, d, hfirst, hd, reencode_sameOutput_iff rfl hd⟩

/-- The second frame of a gop is counted twice while the dpb is filling. -/
theorem reencode_counted_twice :
    ∃ dpb, dpbMachine.Reachable dpb ∧ ∃ cpb d, cpb.curr.isIdr = false ∧
      h264eProcDpb dpb cpb = some d ∧ ¬∃ d', h264eProcDpb d cpb = some d' ∧ SameOutput d d' := by
  have hrun : (afterFirst.bind fun dpb => (h264eProcDpb dpb secondCpb).bind fun d =>
      (h264eProcDpb d secondCpb).map fun d' => (d.usedSize, d'.usedSize)) = some (2, 3) := by
    decide +kernel
  obtain ⟨dpb, hfirst, hrun⟩ := bind_eq_some_iff.1 hrun
  obtain ⟨d, hd, hrun⟩ := bind_eq_some_iff.1 hrun
  obtain ⟨d', hd', hused⟩ := map_eq_some_iff.1 hrun
  obtain ⟨hu, hu'⟩ := Prod.mk.inj hused
  refine ⟨dpb, reachable_afterFirst hfirst, secondCpb, d, rfl, hd, ?_⟩
  rintro ⟨d'', hd'', hsame⟩
  obtain rfl := some.inj (hd'.symm.trans hd'')
  have := hsame.usedSize
  omega

end Libmpp.H264e
