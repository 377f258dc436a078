import Libmpp.H264e.Slots

/-!
# One frame of the dpb

Specifications of the calls that encode a frame, over the closed forms of the scans.

* `h264eDpbProc_eq_some_iff` takes the preparation of a frame apart: the slots of the
  frames kept (`map`), the slot of the frame (`curr`), the slot of its reference
  (`refr`), and the dpb with its reference list (`list`), which is marked last.
* `h264eDpbCheck_eq_some_iff` and `after_of_ref` say what is left after a frame:
  a non-reference frame leaves its slot, any other frame is counted, those it
  replaces are cleared, and the window removes what is too much.
-/

namespace Libmpp.H264e

open EncRef Option

/-! ## Preparing a frame -/

@[simp] theorem begin_totalCnt (dpb : H264eDpb) (curr : EncFrmStatus) :
    (dpb.begin curr).totalCnt = dpb.totalCnt := by
  unfold H264eDpb.begin
  split_ifs <;> rfl

/-- The dpb at the start of the frame, with the frames kept in the slots `map`. -/
def H264eDpb.mapped (dpb : H264eDpb) (cpb : EncCpbStatus) (map : List (Option (Fin dpbFrmCnt))) :
    H264eDpb :=
  (dpb.begin cpb.curr).backup (markUsed map (dpb.begin cpb.curr).frames) map

/-- A frame is prepared: with the frames kept in the slots `map`, the frame in slot
    `c`, its reference in slot `refr`, up to the dpb `l` with its reference list. -/
structure Prepares (dpb : H264eDpb) (cpb : EncCpbStatus) (map : List (Option (Fin dpbFrmCnt)))
    (c : Fin dpbFrmCnt) (refr : Option (Fin dpbFrmCnt)) (l : H264eDpb) : Prop where
  find_init : cpb.init.toList.mapM (findCpbFrame dpb.totalCnt (dpb.begin cpb.curr).frames) = some map
  curr_eq : ((dpb.mapped cpb map).scan cpb.curr).curr = some c
  find_refr :
    findCpbFrame dpb.totalCnt ((dpb.mapped cpb map).scan cpb.curr).frames cpb.refr = some refr
  list_eq : h264eDpbBuildList (((dpb.mapped cpb map).scan cpb.curr).setRefr refr) cpb = some l

@[simp] theorem scan_totalCnt (dpb : H264eDpb) (curr : EncFrmStatus) :
    (dpb.scan curr).totalCnt = dpb.totalCnt := rfl

@[simp] theorem mapped_totalCnt (dpb : H264eDpb) (cpb : EncCpbStatus)
    (map : List (Option (Fin dpbFrmCnt))) : (dpb.mapped cpb map).totalCnt = dpb.totalCnt :=
  begin_totalCnt dpb cpb.curr

theorem scan_frames (dpb : H264eDpb) (curr : EncFrmStatus) :
    (dpb.scan curr).frames = dpb.scanned curr := by
  rw [scan_eq]

theorem scan_curr (dpb : H264eDpb) (curr : EncFrmStatus) :
    (dpb.scan curr).curr = freeSlot dpb.map dpb.frames := by
  rw [scan_eq]

variable {dpb : H264eDpb}

theorem scan_rt {curr : EncFrmStatus} (h : (dpb.scan curr).curr.isSome) :
    (dpb.scan curr).rt = dpb.currRt curr := by
  rw [scan_curr] at h
  rw [scan_eq]
  exact if_pos h

@[simp] theorem setRefr_frames (dpb : H264eDpb) (refr : Option (Fin dpbFrmCnt)) :
    (dpb.setRefr refr).frames = dpb.frames := rfl

@[simp] theorem setRefr_curr (dpb : H264eDpb) (refr : Option (Fin dpbFrmCnt)) :
    (dpb.setRefr refr).curr = dpb.curr := rfl

variable {cpb : EncCpbStatus}

theorem buildList_of_intra (h : cpb.curr.isIntra) (dpb : H264eDpb) :
    h264eDpbBuildList dpb cpb = some { dpb with list := [] } := by
  rw [h264eDpbBuildList, if_pos h]

theorem buildList_eq_some_iff (h : cpb.curr.isIntra = false) {l : H264eDpb} :
    h264eDpbBuildList dpb cpb = some l ↔
      ∃ frames stref ltref op,
        listRefs dpb.totalCnt cpb.init.toList dpb.frames = some (frames, stref, ltref) ∧
        reorderFor frames (defaultList frames stref ltref) dpb.curr dpb.refr = some op ∧
        l = dpb.listed frames stref ltref op := by
  rw [h264eDpbBuildList, h, if_neg Bool.false_ne_true]
  simp only [bind_eq_bind, bind_eq_some_iff, some.injEq]
  constructor
  · rintro ⟨⟨frames, stref, ltref⟩, hl, op, hop, rfl⟩
    exact ⟨frames, stref, ltref, op, hl, hop, rfl⟩
  · rintro ⟨frames, stref, ltref, op, hl, hop, rfl⟩
    exact ⟨(frames, stref, ltref), hl, op, hop, rfl⟩

/-- The list is built without a change of the current slot. -/
theorem curr_of_buildList {l : H264eDpb} (h : h264eDpbBuildList dpb cpb = some l) :
    l.curr = dpb.curr := by
  cases hi : cpb.curr.isIntra with
  | true =>
    rw [buildList_of_intra hi, some.injEq] at h
    rw [← h]
  | false =>
    obtain ⟨_, _, _, _, -, -, rfl⟩ := (buildList_eq_some_iff hi).1 h
    rfl

variable {c : Fin dpbFrmCnt}

/-- Before its list is built, a frame has changed the slots and the running numbers. -/
theorem placed_eq {map : List (Option (Fin dpbFrmCnt))}
    (hc : ((dpb.mapped cpb map).scan cpb.curr).curr = some c) (refr : Option (Fin dpbFrmCnt)) :
    ((dpb.mapped cpb map).scan cpb.curr).setRefr refr =
      { dpb.begin cpb.curr with
        frames := (dpb.mapped cpb map).scanned cpb.curr
        map
        rt := (dpb.mapped cpb map).currRt cpb.curr
        rtBak := (dpb.begin cpb.curr).rt
        frmBak := markUsed map (dpb.begin cpb.curr).frames
        curr := some c
        refr := refr.orElse fun _ => some c } := by
  rw [scan_curr] at hc
  rw [scan_eq, H264eDpb.setRefr]
  dsimp only
  rw [hc, isSome_some, if_pos rfl]
  generalize (dpb.mapped cpb map).scanned cpb.curr = frames'
  generalize (dpb.mapped cpb map).currRt cpb.curr = rt'
  rw [H264eDpb.mapped, H264eDpb.backup]

/-- The preparation of a frame, step by step. -/
theorem h264eDpbProc_eq (dpb : H264eDpb) (cpb : EncCpbStatus) :
    h264eDpbProc dpb cpb =
      (cpb.init.toList.mapM (findCpbFrame dpb.totalCnt (dpb.begin cpb.curr).frames)).bind fun map =>
        (findCpbFrame dpb.totalCnt ((dpb.mapped cpb map).scan cpb.curr).frames cpb.refr).bind
          fun refr => (h264eDpbBuildList (((dpb.mapped cpb map).scan cpb.curr).setRefr refr) cpb).bind
            fun l => l.curr.map (h264eDpbBuildMarking l) := by
  rw [h264eDpbProc, mapCpb_eq, begin_totalCnt]
  cases cpb.init.toList.mapM (findCpbFrame dpb.totalCnt (dpb.begin cpb.curr).frames) with
  | none => rfl
  | some map =>
    rw [map_some, bind_eq_bind, bind_some, bind_some]
    dsimp only
    rw [← H264eDpb.mapped, scan_totalCnt, mapped_totalCnt, bind_eq_bind]
    refine congrArg _ (funext fun refr => ?_)
    rw [bind_eq_bind]
    refine congrArg _ (funext fun l => ?_)
    rw [bind_eq_bind, map_eq_bind]
    rfl

theorem h264eDpbProc_eq_some_iff {p : H264eDpb} :
    h264eDpbProc dpb cpb = some p ↔
      ∃ map c refr l, Prepares dpb cpb map c refr l ∧ p = h264eDpbBuildMarking l c := by
  rw [h264eDpbProc_eq]
  simp only [bind_eq_some_iff, map_eq_some_iff]
  constructor
  · rintro ⟨map, hmap, refr, hrefr, l, hl, c, hc, rfl⟩
    rw [curr_of_buildList hl, setRefr_curr] at hc
    exact ⟨map, c, refr, l, ⟨hmap, hc, hrefr, hl⟩, rfl⟩
  · rintro ⟨map, c, refr, l, ⟨hmap, hc, hrefr, hl⟩, rfl⟩
    refine ⟨map, hmap, refr, hrefr, l, hl, c, ?_, rfl⟩
    rw [curr_of_buildList hl, setRefr_curr]
    exact hc

/-! ## The marking -/

/-- The frame `frm` is made a long-term frame by operations of its slice. -/
def marksLt (frm : EncFrmStatus) : Bool := !frm.isIdr && !frm.isNonRef && frm.isLtRef

/-- The operations that make the current frame the long-term frame `ltIdx`. -/
def H264eDpb.ltOps (dpb : H264eDpb) (ltIdx : Fin 16) : List H264eMmco :=
  if dpb.info.maxLtIdx ≠ dpb.currMaxLtIdx then
    [mmcoMaxLtIdx dpb.info.maxLtIdx, (mmcoMaxLtIdx dpb.info.maxLtIdx).setLt ltIdx]
  else [H264eMmco.setLt 0 ltIdx]

theorem markLt_spec (dpb : H264eDpb) (h : dpb.marking.list.ops = []) (ltIdx : Fin 16) :
    ∃ marking, marking.list.ops = dpb.ltOps ltIdx ∧
      dpb.markLt ltIdx =
        { dpb with
          marking
          nextMaxLtIdx := dpb.info.maxLtIdx
          currMaxLtIdx := dpb.info.maxLtIdx } := by
  rw [H264eDpb.markLt, H264eDpb.ltOps]
  dsimp only
  split_ifs with ha
  · refine ⟨_, ?_, rfl⟩
    dsimp only
    rw [OpList.ops_wrOp_of_lt, OpList.ops_wrOp_of_lt, h]
    · rfl
    · rw [h]
      decide
    · rw [OpList.ops_wrOp_of_lt, h]
      · exact (by decide : 1 < maxH264eMmcoCnt)
      · rw [h]
        decide
  · refine ⟨_, ?_, by rw [← not_not.1 ha]⟩
    dsimp only
    rw [OpList.ops_wrOp_of_lt, h]
    · rfl
    · rw [h]
      decide

/-- The marking of a frame, and the long-term index announced with it. -/
theorem buildMarking_spec (dpb : H264eDpb) (c : Fin dpbFrmCnt) :
    ∃ marking next,
      marking.list.ops =
        (if marksLt (dpb.frames.get c).status then dpb.ltOps (dpb.frames.get c).ltIdx else []) ∧
      h264eDpbBuildMarking dpb c =
        { dpb with
          marking
          nextMaxLtIdx := next
          currMaxLtIdx :=
            if marksLt (dpb.frames.get c).status then dpb.info.maxLtIdx else dpb.currMaxLtIdx } := by
  rw [h264eDpbBuildMarking, marksLt]
  dsimp only
  cases (dpb.frames.get c).status.isIdr with
  | true => exact ⟨_, _, rfl, rfl⟩
  | false =>
    cases (dpb.frames.get c).status.isNonRef with
    | true => exact ⟨_, _, rfl, rfl⟩
    | false =>
      cases (dpb.frames.get c).status.isLtRef with
      | false => exact ⟨_, _, rfl, rfl⟩
      | true =>
        obtain ⟨marking, hops, heq⟩ := markLt_spec { dpb with marking :=
          { dpb.marking with
            list := dpb.marking.list.wrRewind
            idrFlag := 0
            longTermReferenceFlag := 0
            adaptiveRefPicBuffering := 0 } } rfl (dpb.frames.get c).ltIdx
        exact ⟨marking, _, hops, heq⟩

theorem buildMarking_frames (e : H264eDpb) (c : Fin dpbFrmCnt) :
    (h264eDpbBuildMarking e c).frames = e.frames ∧
      (h264eDpbBuildMarking e c).totalCnt = e.totalCnt ∧
      (h264eDpbBuildMarking e c).curr = e.curr := by
  obtain ⟨marking, next, -, heq⟩ := buildMarking_spec e c
  rw [heq]
  exact ⟨rfl, rfl, rfl⟩

/-! ## After the frame -/

/-- The slots replaced by the frame in slot `c`: those with its index, when it is a
    long-term frame. -/
def replacedBy (t : Fin (dpbFrmCnt + 1)) (frames : DpbFrames) (c : Fin dpbFrmCnt) :
    Finset (Fin dpbFrmCnt) :=
  if (frames.get c).status.isLtRef then replacedSlots t frames c (frames.get c).ltIdx else ∅

/-- A replaced frame was not removable, and is not. -/
theorem mayRemove_clearSlots (t : Fin (dpbFrmCnt + 1)) (frames : DpbFrames) (c i : Fin dpbFrmCnt) :
    mayRemove t (clearSlots (replacedBy t frames c) frames) i ↔ mayRemove t frames i := by
  rw [mayRemove, mayRemove, get_clearSlots]
  split_ifs with hi
  · have hlt : (frames.get i).status.isLtRef := by
      unfold replacedBy at hi
      split_ifs at hi
      · have := (Finset.mem_filter.1 hi).2.2
        simp only [isReplaced, Bool.and_eq_true] at this
        exact this.1.2
      · exact absurd hi (Finset.notMem_empty _)
    simp [H264eDpbFrm.isRemovable, H264eDpbFrm.clear, hlt]
  · rfl

theorem removedCnt_clearSlots (t : Fin (dpbFrmCnt + 1)) (frames : DpbFrames) (c : Fin dpbFrmCnt)
    (n : ℕ) :
    removedCnt t (clearSlots (replacedBy t frames c) frames) n = removedCnt t frames n := by
  have hhal : ∀ i, ((clearSlots (replacedBy t frames c) frames).get i).halUsed =
      (frames.get i).halUsed := by
    intro i
    rw [get_clearSlots]
    split_ifs <;> rfl
  simp only [removedCnt, mayRemove_clearSlots, hhal]

/-- The frame in slot `c` is counted, and those it replaces are not any more. -/
theorem insertCurr_eq (dpb : H264eDpb) (c : Fin dpbFrmCnt) :
    dpb.insertCurr c =
      { dpb with
        frames := clearSlots (replacedBy dpb.totalCnt dpb.frames c) dpb.frames
        stSize := dpb.stSize + if (dpb.frames.get c).status.isLtRef then 0 else 1
        ltSize := dpb.ltSize + (if (dpb.frames.get c).status.isLtRef then 1 else 0) -
          (replacedBy dpb.totalCnt dpb.frames c).card
        usedSize := dpb.usedSize + 1 - (replacedBy dpb.totalCnt dpb.frames c).card } := by
  rw [H264eDpb.insertCurr]
  dsimp only
  by_cases hlt : (dpb.frames.get c).status.isLtRef
  · rw [if_pos hlt, replaceLt_finRange, replacedBy, if_pos hlt, if_pos hlt, if_pos hlt, add_zero]
  · have : clearSlots ∅ dpb.frames = dpb.frames := ext_get fun i => by rw [get_clearSlots]; rfl
    rw [if_neg hlt, replacedBy, if_neg hlt, if_neg hlt, if_neg hlt, this]
    simp

theorem h264eDpbCheck_eq_some_iff {d : H264eDpb} (hc : dpb.curr = some c) :
    h264eDpbCheck dpb cpb = some d ↔
      ∃ map, cpb.final.toList.mapM (findCpbFrame (dpb.after c).totalCnt (dpb.after c).frames) =
        some map ∧ d = { dpb.after c with map } := by
  rw [h264eDpbCheck]
  simp only [bind_eq_bind, bind_eq_some_iff, some.injEq]
  constructor
  · rintro ⟨c', hc', map, hmap, rfl⟩
    obtain rfl := some.inj (hc.symm.trans hc')
    exact ⟨map, hmap, rfl⟩
  · rintro ⟨map, hmap, rfl⟩
    exact ⟨c, hc, map, hmap, rfl⟩

/-- The frames the window removes with the frame in slot `c`, `used` being counted. -/
def removes (t : Fin (dpbFrmCnt + 1)) (frames : DpbFrames) (c : Fin dpbFrmCnt)
    (dpbSize used : ℤ) : ℕ :=
  removedCnt t frames (used + 1 - (replacedBy t frames c).card - dpbSize).toNat

/-- A reference frame is counted, the frames it replaces are cleared, and the window
    takes frames out of use. -/
theorem after_of_ref (dpb : H264eDpb) (hn : (dpb.frames.get c).status.isNonRef = false) :
    ∃ frames', (∀ i, SameButUsed
        ((clearSlots (replacedBy dpb.totalCnt dpb.frames c) dpb.frames).get i) (frames'.get i)) ∧
      dpb.after c =
        { dpb with
          frames := frames'
          stSize := dpb.stSize + (if (dpb.frames.get c).status.isLtRef then 0 else 1) -
            removes dpb.totalCnt dpb.frames c dpb.dpbSize dpb.usedSize
          ltSize := dpb.ltSize + (if (dpb.frames.get c).status.isLtRef then 1 else 0) -
            (replacedBy dpb.totalCnt dpb.frames c).card
          usedSize := dpb.usedSize + 1 - (replacedBy dpb.totalCnt dpb.frames c).card -
            removes dpb.totalCnt dpb.frames c dpb.dpbSize dpb.usedSize } := by
  rw [H264eDpb.after, hn, if_neg Bool.false_ne_true, insertCurr_eq]
  obtain ⟨frames', hsame, heq⟩ := slideWindow_spec
    (dpb.usedSize + 1 - (replacedBy dpb.totalCnt dpb.frames c).card - dpb.dpbSize).toNat
    { dpb with
      frames := clearSlots (replacedBy dpb.totalCnt dpb.frames c) dpb.frames
      stSize := dpb.stSize + if (dpb.frames.get c).status.isLtRef then 0 else 1
      ltSize := dpb.ltSize + (if (dpb.frames.get c).status.isLtRef then 1 else 0) -
        (replacedBy dpb.totalCnt dpb.frames c).card
      usedSize := dpb.usedSize + 1 - (replacedBy dpb.totalCnt dpb.frames c).card }
  refine ⟨frames', hsame, ?_⟩
  dsimp only at heq ⊢
  rw [heq, removedCnt_clearSlots, removes]

end Libmpp.H264e
