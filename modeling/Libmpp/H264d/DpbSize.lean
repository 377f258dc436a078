import Libmpp.H264d.Sps

/-!
# The size of the decoded picture buffer

The size that `init_dpb` gives the buffer of the H.264 decoder (`getDpbSize` of
`h264d_dpb.c`), and two functions that rely on it: the loops of `update_ref_list` and
`update_ltref_list`, which count in eight bits, and `prepare_init_dpb_info`, which fills a
table of `MAX_DPB_SIZE` entries.

The level and the dimensions give a number, which is at most `MAX_DPB_SIZE`; but the
usability information replaces it by one that is not compared with anything. The product
of the dimensions is not checked either. Signed arithmetic that overflows is undefined, and
so is a division by zero; the overflow of `process_sps`, which comes first, is taken to wrap.

The size can be used exactly when the numbers of the set fit (`dpbSize_usable_iff`).
-/

namespace Libmpp.H264d

open Base Bitstream List Option

/-! ## The checks -/

/-- The hardware's capabilities (`MppDecHwCap`). -/
structure HwCap where
  cap4k : Bool
  cap8k : Bool
  capCoreNum : ℕ
  deriving DecidableEq, Repr

/-- The extension of a subset parameter set, as far as it is checked: the entries of index
    `0` of its tables. -/
structure SubsetViews where
  numViewsMinus1 : ℤ
  viewId : ℕ → ℤ := fun _ => 0
  numAnchorRefsL0 : ℤ := 0
  numAnchorRefsL1 : ℤ := 0
  numNonAnchorRefsL0 : ℤ := 0
  numNonAnchorRefsL1 : ℤ := 0
  anchorRefL0 : ℤ := 0
  anchorRefL1 : ℤ := 0
  nonAnchorRefL0 : ℤ := 0
  nonAnchorRefL1 : ℤ := 0

/-- A picture parameter set (`H264_PPS_t`), as far as it is checked. -/
structure Pps where
  picParameterSetId : ℕ := 0
  seqParameterSetId : ℕ := 0
  numSliceGroupsMinus1 : ℤ := 0
  numRefIdxL0DefaultActiveMinus1 : ℤ := 0
  numRefIdxL1DefaultActiveMinus1 : ℤ := 0
  picInitQpMinus26 : ℤ := 0
  picInitQsMinus26 : ℤ := 0
  chromaQpIndexOffset : ℤ := 0
  redundantPicCntPresentFlag : Bool := false
  deriving DecidableEq, Repr

def maxMbw1080p : ℤ := 1920 / 16 - 1
def maxMbw4kx2k : ℤ := 4096 / 16 - 1
def maxMbw8kx4k : ℤ := 8192 / 16 - 1

/-- The widest picture. -/
def maxMbWidth : Option HwCap → ℤ
  | none => maxMbw1080p
  | some hw =>
    if hw.cap8k then maxMbw8kx4k * hw.capCoreNum
    else if hw.cap4k then maxMbw4kx2k
    else maxMbw1080p

def checkSps (sps : Sps) : Bool :=
  !(sps.seqParameterSetId > 31 || sps.separateColourPlaneFlag || sps.chromaFormatIdc ≥ 3 ||
    sps.bitDepthLumaMinus8 > 2 || sps.bitDepthChromaMinus8 > 2 ||
    sps.log2MaxFrameNumMinus4 > 12 || sps.picOrderCntType > 2 ||
    sps.log2MaxPicOrderCntLsbMinus4 > 12 || sps.numRefFramesInPicOrderCntCycle > 255 ||
    sps.maxNumRefFrames > 16 || sps.qpprimeYZeroTransformBypassFlag)

def checkViews (s : SubsetViews) : Bool :=
  !(s.numViewsMinus1 ≠ 1 ||
    (s.numAnchorRefsL0 > 0 && s.anchorRefL0 ≠ s.viewId 0) ||
    (s.numAnchorRefsL1 > 0 && s.anchorRefL1 ≠ s.viewId 1) ||
    (s.numNonAnchorRefsL0 > 0 && s.nonAnchorRefL0 ≠ s.viewId 0) ||
    (s.numNonAnchorRefsL1 > 0 && s.nonAnchorRefL1 ≠ s.viewId 1))

def checkPps (sps : Sps) (pps : Pps) : Bool :=
  !(pps.picParameterSetId > 255 || pps.seqParameterSetId > 31 || pps.numSliceGroupsMinus1 > 0 ||
    pps.numRefIdxL0DefaultActiveMinus1 > 31 || pps.numRefIdxL1DefaultActiveMinus1 > 31 ||
    pps.picInitQpMinus26 > 25 || pps.picInitQpMinus26 < -(26 + 6 * sps.bitDepthLumaMinus8) ||
    pps.picInitQsMinus26 > 25 || pps.picInitQsMinus26 < -26 ||
    pps.chromaQpIndexOffset > 12 || pps.chromaQpIndexOffset < -12 ||
    pps.redundantPicCntPresentFlag)

def checkSpsPps (sps : Sps) (subset : Option SubsetViews) (pps : Pps) (hw : Option HwCap) :
    MppRet :=
  if checkSps sps && !(sps.picWidthInMbsMinus1 < 3) &&
      !(sps.picWidthInMbsMinus1 > maxMbWidth hw) && subset.all checkViews && checkPps sps pps then
    mppOk
  else mppNok

/-! ## The size -/

/-- The size of the buffer at a level. -/
def levelSize (sps : Sps) (setsLimit : Bool) : ℤ :=
  match sps.levelIdc with
  | 9 => 152064
  | 10 => 152064
  | 11 => if setsLimit then 152064 else 345600
  | 12 => 912384
  | 13 => 912384
  | 20 => 912384
  | 21 => 1824768
  | 22 => 3110400
  | 30 => 3110400
  | 31 => 6912000
  | 32 => 7864320
  | 40 => 12582912
  | 41 => 12582912
  | 42 => 13369344
  | 50 => 42393600
  | 51 => 70778880
  | 52 => 70778880
  | _ => 0

variable (profileIdc : ℕ) (structure_ : PictureStructure)

def isPrextProfile : Bool :=
  profileIdc ≥ profileHigh || profileIdc = profileFrextCavlc444

/-- The limit of level 1.1 is that of level 1b. -/
def Sps.isLevel1b (sps : Sps) : Bool := !isPrextProfile sps.profileIdc && sps.constrainedSet3Flag

/-- A number of `32` bits as it wraps. -/
def wrapS32 (x : ℤ) : ℤ := x.bmod (2 ^ 32)

/-- The product of the dimensions, without a bound. -/
def Sps.picBytes (sps : Sps) : ℤ :=
  (sps.picWidthInMbsMinus1 + 1) * (sps.picHeightInMapUnitsMinus1 + 1) *
    (if sps.frameMbsOnlyFlag then 1 else 2) * 384

/-- A quotient. A division by zero is undefined. -/
def divS32 (a b : ℤ) : Option ℤ := if b = 0 then none else s32 (a.tdiv b)

/-- `get_max_dec_frame_buf_size`, with the levels that `getDpbSize` does not know. -/
def getMaxDecFrameBufSize (sps : Sps) : Option (MppRet × Sps) :=
  let size := if sps.levelIdc ∈ [60, 61, 62] then 267386880 else levelSize sps sps.isLevel1b
  if size = 0 then some (mppNok, sps)
  else do
    let size ← divS32 size (wrapS32 sps.picBytes)
    some (mppOk, { sps with maxDecFrameBuffering := min size 16 })

/-- `process_sps`: the set that becomes available, if there is one. -/
def processSps (reader : BitReadCtx) : Option (MppRet × Option Sps) :=
  let parsed := parserSps { val := {}, reader }
  if parsed.1 < 0 then some (parsed.1, none)
  else do
    let (ret, sps) ← getMaxDecFrameBufSize parsed.2.val
    if ret < 0 then some (ret, none)
    else some (mppOk, if sps.valid then some sps else none)

/-- The product of the dimensions, step by step. -/
def picSize (sps : Sps) : Option ℤ := do
  let width ← s32 (sps.picWidthInMbsMinus1 + 1)
  let height ← s32 (sps.picHeightInMapUnitsMinus1 + 1)
  let frame ← s32 (width * height)
  let pic ← s32 (frame * if sps.frameMbsOnlyFlag then 1 else 2)
  s32 (pic * 384)

/-- The loop of `RoundLog2`. A shift of `1` by `31` is undefined. -/
def log2Loop : ℕ → ℤ → ℕ → Option ℕ
  | 0, _, _ => none
  | fuel + 1, square, ret =>
    if 2 ^ (ret + 1) ≤ square then log2Loop fuel square (ret + 1) else some ret

/-- `RoundLog2` -/
def roundLog2 (value : ℤ) : Option ℕ := do
  let ret ← log2Loop 30 (← s32 (value * value)) 0
  some ((ret + 1) / 2)

/-- The number of frames by level and picture size. The subset is the active one, when the
    active set is that of a view. -/
def sizeByLevel (subset : Option SubsetViews) (sps : Sps) : Option ℤ := do
  let picSize ← picSize sps
  let size ← divS32 (levelSize sps sps.isLevel1b) picSize
  match subset with
  | some views =>
    if profileIdc = profileMvcHigh ∨ profileIdc = profileStereoHigh then do
      let numViews ← s32 (views.numViewsMinus1 + 1)
      let log2 ← roundLog2 numViews
      divS32 (min (← s32 (2 * size)) (max 1 log2 * 16)) numViews
    else some (min size 16)
  | none => some (min size 16)

/-- The usability information gives the number of frames. -/
def Sps.hasVuiSize (sps : Sps) : Bool :=
  sps.vuiParametersPresentFlag && sps.vuiSeqParameters.bitstreamRestrictionFlag

/-- The number of frames that the usability information gives. It is compared as an
    unsigned number. -/
def Sps.vuiSize (sps : Sps) : ℤ := toS32 (max 1 sps.vuiSeqParameters.maxDecFrameBuffering)

def getDpbSize (subset : Option SubsetViews) (sps : Sps) : Option ℤ := do
  let size ← sizeByLevel profileIdc subset sps
  let size := if sps.hasVuiSize then sps.vuiSize else size
  some (if size < sps.maxNumRefFrames then min sps.maxNumRefFrames 16 else size)

/-- The size that `init_dpb` sets, an unsigned number. -/
def initDpbSize (subset : Option SubsetViews) (sps : Sps) : Option ℕ := do
  let dpbSize ← getDpbSize profileIdc subset sps
  some (max 1 (dpbSize % 2 ^ 32).toNat)

/-! ## What relies on it -/

/-- `MAX_DPB_SIZE` -/
def maxDpbSize : ℕ := 16

/-- The first loop of `update_ref_list`: the references among the stores in use, with
    counters of eight bits. -/
def collectRefs (isRef : ℕ → Bool) (usedSize : ℕ) :
    ℕ → UInt8 → UInt8 → (ℕ → Option ℕ) → Option (UInt8 × (ℕ → Option ℕ))
  | 0, _, _, _ => none
  | fuel + 1, i, j, refs =>
    if i.toNat < usedSize then
      if isRef i.toNat then
        collectRefs isRef usedSize fuel (i + 1) (j + 1)
          (Function.update refs j.toNat (some i.toNat))
      else collectRefs isRef usedSize fuel (i + 1) j refs
    else some (j, refs)

/-- The second loop: the rest of the list is empty. -/
def clearRefs (size : ℕ) : ℕ → UInt8 → (ℕ → Option ℕ) → Option (ℕ → Option ℕ)
  | 0, _, _ => none
  | fuel + 1, j, refs =>
    if j.toNat < size then clearRefs size fuel (j + 1) (Function.update refs j.toNat none)
    else some refs

/-- The loops of `update_ref_list` and `update_ltref_list`, with the number of references. -/
def updateRefLoops (isRef : ℕ → Bool) (usedSize size fuel : ℕ) (refs : ℕ → Option ℕ) :
    Option (ℕ × (ℕ → Option ℕ)) := do
  let (j, refs) ← collectRefs isRef usedSize fuel 0 0 refs
  let refs ← clearRefs size fuel j refs
  some (j.toNat, refs)

/-- A store of another view, as far as its place in the table depends on it. -/
structure InterLayer where
  isUsed : ℕ
  interViewFlag0 : Bool
  interViewFlag1 : Bool
  deriving DecidableEq, Repr

/-- The loop ends at a store that is not for the prediction of other views. -/
def InterLayer.stops (s : InterLayer) : PictureStructure → Bool
  | .frame => s.isUsed = 3 && !s.interViewFlag0 && !s.interViewFlag1
  | .topField => s.isUsed ≠ 0 && !(if s.isUsed % 2 = 1 then s.interViewFlag0 else s.interViewFlag1)
  | .bottomField =>
    (s.isUsed = 3 && !s.interViewFlag1) ||
      s.isUsed ≠ 0 && !(if s.isUsed % 2 = 1 then s.interViewFlag0 else s.interViewFlag1)

/-- For a bottom field, both fields of a store are looked at, and the first is written. -/
def InterLayer.stopsLate (s : InterLayer) (structure_ : PictureStructure) : Bool :=
  structure_ = .bottomField && s.isUsed = 3 && s.interViewFlag1 && !s.interViewFlag0

/-- The entry that the store of another view gets, when it would be the one numbered `i`. There
    is one such store at most. -/
def interLayerEntry (i : ℕ) (il : Option InterLayer) : List ℕ :=
  match il with
  | none => []
  | some s => if s.stops structure_ && !s.stopsLate structure_ then [] else [i]

/-- The entries of the table that `prepare_init_dpb_info` writes to. -/
def dpbInfoEntries (refs ltrefs : ℕ) (il : Option InterLayer) : List ℕ :=
  List.range refs ++ (List.range ltrefs).map (refs + ·) ++
    interLayerEntry structure_ (refs + ltrefs) il

/-- The buffer and the picture for which the table is filled: which of the stores in use are
    references. -/
structure DpbView where
  usedSize : ℕ
  isShort : ℕ → Bool
  isLong : ℕ → Bool
  interLayer : Option InterLayer := none
  structure_ : PictureStructure

/-- No more stores are in use than `init_dpb` makes: `store_picture_in_dpb` makes room first. -/
def DpbView.Within (subset : Option SubsetViews) (sps : Sps) (d : DpbView) : Prop :=
  ∀ size, initDpbSize profileIdc subset sps = some size → d.usedSize ≤ size

/-- The stores that are references. -/
def DpbView.references (d : DpbView) : ℕ :=
  (List.range d.usedSize).countP fun i => d.isShort i || d.isLong i

/-- The stores with a short-term and a long-term field. -/
def DpbView.mixed (d : DpbView) : ℕ :=
  (List.range d.usedSize).countP fun i => d.isShort i && d.isLong i

/-- The stores of other views that the picture is predicted from. -/
def DpbView.otherViews (d : DpbView) : ℕ := (interLayerEntry d.structure_ 0 d.interLayer).length

/-- There is an entry for each reference, another one for each store with a field of either kind,
    and one for the other view. -/
def DpbView.Sparse (d : DpbView) : Prop := d.references + d.mixed + d.otherViews ≤ maxDpbSize

/-- The size can be used. -/
structure SizeUsable (profileIdc : ℕ) (subset : Option SubsetViews) (sps : Sps) (d : DpbView) :
    Prop where
  /-- No division by zero and no overflow. -/
  defined : (getDpbSize profileIdc subset sps).isSome
  size : ∀ size, initDpbSize profileIdc subset sps = some size → 1 ≤ size ∧ size ≤ maxDpbSize
  /-- The loops come to an end. -/
  refs : ∀ size, initDpbSize profileIdc subset sps = some size → ∀ refs, ∃ fuel,
    (updateRefLoops d.isShort d.usedSize size fuel refs).isSome ∧
      (updateRefLoops d.isLong d.usedSize size fuel refs).isSome
  /-- The table is filled inside. -/
  entries : ∀ i ∈ dpbInfoEntries d.structure_ ((List.range d.usedSize).countP d.isShort)
    ((List.range d.usedSize).countP d.isLong) d.interLayer, i < maxDpbSize

/-- The product of the dimensions is a number of `32` bits, and not zero. -/
def Sps.PicFits (sps : Sps) : Prop :=
  sps.picBytes ≠ 0 ∧ -2 ^ 31 ≤ sps.picBytes ∧ sps.picBytes < 2 ^ 31

/-- The number of frames fits: that of the usability information, if there is one. A
    negative one, or that of a negative picture, is made up for by the number of reference
    frames. -/
def Sps.FramesFit (sps : Sps) : Prop :=
  if sps.hasVuiSize then
    sps.vuiSeqParameters.maxDecFrameBuffering.toNat ≤ maxDpbSize ∨
      2 ^ 31 ≤ sps.vuiSeqParameters.maxDecFrameBuffering.toNat ∧ 0 ≤ sps.maxNumRefFrames
  else 0 < sps.picBytes ∨ levelSize sps sps.isLevel1b < -sps.picBytes ∨ 0 ≤ sps.maxNumRefFrames

/-! ## The product -/

variable {a : ℤ}

theorem s32_eq_some {val : ℤ} : s32 val = some a ↔ (-2 ^ 31 ≤ val ∧ val < 2 ^ 31) ∧ val = a := by
  rw [s32]
  split_ifs with h
  · rw [some_inj]
    exact ⟨fun ha => ⟨h, ha⟩, And.right⟩
  · exact ⟨nofun, fun ha => absurd ha.1 h⟩

theorem s32_of_fits {val : ℤ} (h : -2 ^ 31 ≤ val ∧ val < 2 ^ 31) : s32 val = some val := if_pos h

variable {b : ℤ}

/-- A factor fits when the product does, with another one that is positive. -/
theorem fits_of_mul (hb : 1 ≤ b) (h : -2 ^ 31 ≤ a * b ∧ a * b < 2 ^ 31) :
    -2 ^ 31 ≤ a ∧ a < 2 ^ 31 := by
  obtain ⟨hlo, hhi⟩ := h
  constructor
  · by_contra hlt
    have : a * b ≤ a * 1 := mul_le_mul_of_nonpos_left hb (by omega)
    omega
  · by_contra hlt
    have : a * 1 ≤ a * b := mul_le_mul_of_nonneg_left hb (by omega)
    omega

variable {sps : Sps}

/-- The product is found step by step, when it fits: its factors do then. -/
theorem picSize_of_fits (hwidth : 1 ≤ sps.picWidthInMbsMinus1 + 1) (h : sps.PicFits) :
    picSize sps = some sps.picBytes := by
  obtain ⟨hne, hfits⟩ := h
  rw [picSize, Sps.picBytes] at *
  set width := sps.picWidthInMbsMinus1 + 1
  set height := sps.picHeightInMapUnitsMinus1 + 1
  have hfields : 1 ≤ (if sps.frameMbsOnlyFlag then (1 : ℤ) else 2) := by split_ifs <;> decide
  have hpic := fits_of_mul (by decide) hfits
  have hframe := fits_of_mul hfields hpic
  have hheight : -2 ^ 31 ≤ height ∧ height < 2 ^ 31 :=
    fits_of_mul hwidth (by rwa [mul_comm] at hframe)
  have hwidth' : -2 ^ 31 ≤ width ∧ width < 2 ^ 31 := by
    have hheight0 : height ≠ 0 := by
      rintro h0
      rw [h0, mul_zero, zero_mul, zero_mul] at hne
      exact hne rfl
    rcases lt_or_gt_of_ne hheight0 with hneg | hpos
    · -- the product has room for a factor of `384`
      have hle : width * height ≤ width * -1 := mul_le_mul_of_nonneg_left (by omega) (by omega)
      have hbig : -2 ^ 31 ≤ width * height * 384 := by
        have : width * height * (if sps.frameMbsOnlyFlag then (1 : ℤ) else 2) ≤
            width * height * 1 :=
          mul_le_mul_of_nonpos_left hfields (by omega)
        omega
      omega
    · exact fits_of_mul (show 1 ≤ height by omega) hframe
  rw [s32_of_fits hwidth', bind_eq_bind, bind_some, s32_of_fits hheight,
    bind_some, s32_of_fits hframe, bind_some, s32_of_fits hpic, bind_some,
    s32_of_fits hfits]

theorem picSize_eq_some {n : ℤ} (h : picSize sps = some n) :
    n = sps.picBytes ∧ -2 ^ 31 ≤ sps.picBytes ∧ sps.picBytes < 2 ^ 31 := by
  obtain ⟨width, hwidth, h⟩ := bind_eq_some_iff.1 h
  obtain ⟨height, hheight, h⟩ := bind_eq_some_iff.1 h
  obtain ⟨frame, hframe, h⟩ := bind_eq_some_iff.1 h
  obtain ⟨pic, hpic, h⟩ := bind_eq_some_iff.1 h
  obtain ⟨-, rfl⟩ := s32_eq_some.1 hwidth
  obtain ⟨-, rfl⟩ := s32_eq_some.1 hheight
  obtain ⟨-, rfl⟩ := s32_eq_some.1 hframe
  obtain ⟨-, rfl⟩ := s32_eq_some.1 hpic
  obtain ⟨hfits, rfl⟩ := s32_eq_some.1 h
  exact ⟨rfl, hfits⟩

/-! ## The number of frames -/

theorem toS32_eq (v : UInt32) :
    toS32 v = if v.toNat < 2 ^ 31 then (v.toNat : ℤ) else v.toNat - 2 ^ 32 := by
  have hint := v.toBitVec.toInt_eq_toNat_cond
  have hnat : v.toBitVec.toNat = v.toNat := rfl
  have hlt := v.toNat_lt
  change v.toBitVec.toInt = _
  rw [hint, hnat]
  split_ifs <;> omega

theorem levelSize_bounds (sps : Sps) (setsLimit : Bool) :
    0 ≤ levelSize sps setsLimit ∧ levelSize sps setsLimit < 2 ^ 27 := by
  rw [levelSize]
  split <;> (try split) <;> decide

theorem divS32_eq (hb : b ≠ 0) (ha : -2 ^ 31 < a) (ha' : a < 2 ^ 31) :
    divS32 a b = some (a.tdiv b) := by
  have habs := Int.natAbs_tdiv_le_natAbs a b
  rw [divS32, if_neg hb]
  exact s32_of_fits (by omega)

/-- The sign of a quotient of a number that is not negative. -/
theorem tdiv_nonneg_iff (hb : b ≠ 0) (ha : 0 ≤ a) : 0 ≤ a.tdiv b ↔ 0 < b ∨ a < -b := by
  rcases lt_or_gt_of_ne hb with hneg | hpos
  · have hquot : a.tdiv b = -(a / -b) := by
      rw [← Int.tdiv_eq_ediv_of_nonneg ha, Int.tdiv_neg, neg_neg]
    have hle : 1 ≤ a / -b ↔ 1 * -b ≤ a := Int.le_ediv_iff_mul_le (by omega)
    omega
  · exact ⟨fun _ => .inl hpos, fun _ => Int.tdiv_nonneg ha hpos.le⟩

variable {subset : Option SubsetViews}

/-- The number of frames by level and picture size, when the product fits. A subset has
    two views. -/
theorem sizeByLevel_spec (hviews : ∀ views, subset = some views → views.numViewsMinus1 = 1)
    (hpic : picSize sps = some sps.picBytes) (hne : sps.picBytes ≠ 0) :
    ∃ v, sizeByLevel profileIdc subset sps = some v ∧ -2 ^ 31 ≤ v ∧ v ≤ 16 ∧
      (0 ≤ v ↔ 0 < sps.picBytes ∨ levelSize sps sps.isLevel1b < -sps.picBytes) := by
  obtain ⟨hlo, hhi⟩ := levelSize_bounds sps sps.isLevel1b
  have hdiv := divS32_eq hne (by omega) (show levelSize sps sps.isLevel1b < 2 ^ 31 by omega)
  have habs := Int.natAbs_tdiv_le_natAbs (levelSize sps sps.isLevel1b) sps.picBytes
  rw [← tdiv_nonneg_iff hne hlo, sizeByLevel, hpic, bind_eq_bind, bind_some, hdiv,
    bind_some]
  set q := (levelSize sps sps.isLevel1b).tdiv sps.picBytes
  have hmin : ∃ v, some (min q 16) = some v ∧ -2 ^ 31 ≤ v ∧ v ≤ 16 ∧ (0 ≤ v ↔ 0 ≤ q) :=
    ⟨min q 16, rfl, by omega, by omega, by omega⟩
  cases subset with
  | none => exact hmin
  | some views =>
    dsimp only
    split_ifs with hprofile
    · rw [hviews views rfl]
      have hviews2 : s32 (1 + 1) = some 2 := by decide
      have hlog : roundLog2 2 = some 1 := by decide
      have htwice : s32 (2 * q) = some (2 * q) := s32_of_fits (by omega)
      have hroom : ((max 1 1 : ℕ) : ℤ) * 16 = 16 := by decide
      rw [hviews2, bind_some, hlog, bind_eq_bind, bind_some, htwice,
        bind_some, hroom, divS32_eq (by decide) (by omega) (by omega)]
      refine ⟨_, rfl, ?_⟩
      rcases le_total (2 * q) 16 with hle | hle
      · rw [min_eq_left hle, Int.mul_tdiv_cancel_left q (by decide)]
        omega
      · have height : (16 : ℤ).tdiv 2 = 8 := by decide
        rw [min_eq_right hle, height]
        omega
    · exact hmin

/-! ## The size that is set -/

/-- What the checks say about the numbers that the size depends on. -/
theorem checked_of_checkSpsPps {pps : Pps} {hw : Option HwCap}
    (hcheck : checkSpsPps sps subset pps hw = mppOk) :
    sps.maxNumRefFrames ≤ 16 ∧ 3 ≤ sps.picWidthInMbsMinus1 ∧
      ∀ views, subset = some views → views.numViewsMinus1 = 1 := by
  have hnok : mppNok ≠ mppOk := by decide
  rw [checkSpsPps] at hcheck
  split_ifs at hcheck with h
  · simp only [Bool.and_eq_true, Bool.not_eq_true', decide_eq_false_iff_not, not_lt] at h
    obtain ⟨⟨⟨⟨hsps, hwidth⟩, -⟩, hviews⟩, -⟩ := h
    refine ⟨?_, hwidth, ?_⟩
    · simp only [checkSps, Bool.not_eq_true', Bool.or_eq_false_iff, decide_eq_false_iff_not] at hsps
      exact not_lt.1 hsps.1.2
    · rintro views rfl
      simp only [all_some, checkViews, Bool.not_eq_true', Bool.or_eq_false_iff,
        decide_eq_false_iff_not, not_not] at hviews
      exact hviews.1.1.1.1
  · exact absurd hcheck hnok

theorem vuiSize_eq (sps : Sps) :
    sps.vuiSize = if max 1 sps.vuiSeqParameters.maxDecFrameBuffering.toNat < 2 ^ 31 then
      (max 1 sps.vuiSeqParameters.maxDecFrameBuffering.toNat : ℤ)
    else max 1 sps.vuiSeqParameters.maxDecFrameBuffering.toNat - 2 ^ 32 := by
  have hmax : (max 1 sps.vuiSeqParameters.maxDecFrameBuffering).toNat =
      max 1 sps.vuiSeqParameters.maxDecFrameBuffering.toNat := by
    set m := sps.vuiSeqParameters.maxDecFrameBuffering
    change (if 1 ≤ m then m else 1).toNat = max 1 m.toNat
    have hle : 1 ≤ m ↔ 1 ≤ m.toNat := UInt32.le_iff_toNat_le
    split_ifs with h
    · rw [max_eq_right (hle.1 h)]
    · rw [max_eq_left (not_le.1 (mt hle.2 h)).le]
      rfl
  rw [Sps.vuiSize, toS32_eq, hmax]
  push_cast
  rfl

/-- What `getDpbSize` returns, when the product fits. It is between `0` and the size of the
    tables when the number of frames fits. -/
theorem getDpbSize_spec (hrefs : sps.maxNumRefFrames ≤ 16) (hwidth : 3 ≤ sps.picWidthInMbsMinus1)
    (hviews : ∀ views, subset = some views → views.numViewsMinus1 = 1) (hpic : sps.PicFits) :
    ∃ f, getDpbSize profileIdc subset sps = some f ∧ -2 ^ 31 ≤ f ∧ f < 2 ^ 31 ∧
      (0 ≤ f ∧ f ≤ 16 ↔ sps.FramesFit) := by
  obtain ⟨v, hv, hlo, hhi, hsign⟩ :=
    sizeByLevel_spec profileIdc hviews (picSize_of_fits (by omega) hpic) hpic.1
  have hvui := vuiSize_eq sps
  have hword := sps.vuiSeqParameters.maxDecFrameBuffering.toNat_lt
  rw [getDpbSize, hv, bind_eq_bind, bind_some]
  refine ⟨_, rfl, ?_⟩
  rw [Sps.FramesFit, maxDpbSize]
  split_ifs at hvui ⊢ <;> omega

theorem isSome_getDpbSize_iff {profileIdc : ℕ} (hrefs : sps.maxNumRefFrames ≤ 16)
    (hwidth : 3 ≤ sps.picWidthInMbsMinus1)
    (hviews : ∀ views, subset = some views → views.numViewsMinus1 = 1) :
    (getDpbSize profileIdc subset sps).isSome ↔ sps.PicFits := by
  constructor
  · intro hsome
    obtain ⟨f, hf⟩ := isSome_iff_exists.1 hsome
    obtain ⟨v, hv, -⟩ := bind_eq_some_iff.1 hf
    obtain ⟨pic, hpic, hsize⟩ := bind_eq_some_iff.1 hv
    obtain ⟨size, hdiv, -⟩ := bind_eq_some_iff.1 hsize
    obtain ⟨rfl, hfits⟩ := picSize_eq_some hpic
    refine ⟨?_, hfits⟩
    intro h0
    rw [divS32, if_pos h0] at hdiv
    exact absurd hdiv nofun
  · intro hpic
    obtain ⟨f, hf, -⟩ := getDpbSize_spec profileIdc hrefs hwidth hviews hpic
    rw [hf]
    rfl

/-! ## The loops -/

variable {usedSize : ℕ}

/-- The first loop goes over the rest of the stores in use, and counts the references. -/
theorem collectRefs_eq (isRef : ℕ → Bool) (hused : usedSize < 256) (n : ℕ) (i j : UInt8)
    (refs : ℕ → Option ℕ) (hi : i.toNat + n = usedSize) (hj : j.toNat ≤ i.toNat) :
    ∃ j' refs', collectRefs isRef usedSize (n + 1) i j refs = some (j', refs') ∧
      j'.toNat = j.toNat + (List.range' i.toNat n).countP isRef := by
  induction n generalizing i j refs with
  | zero =>
    have hend : ¬ i.toNat < usedSize := by omega
    exact ⟨j, refs, by rw [collectRefs, if_neg hend], rfl⟩
  | succ n ih =>
    have hlt : i.toNat < usedSize := by omega
    have hi' : (i + 1).toNat = i.toNat + 1 := by
      rw [UInt8.toNat_add]
      exact Nat.mod_eq_of_lt (by change i.toNat + 1 < 256; omega)
    have hj' : (j + 1).toNat = j.toNat + 1 := by
      rw [UInt8.toNat_add]
      exact Nat.mod_eq_of_lt (by change j.toNat + 1 < 256; omega)
    rw [collectRefs, if_pos hlt, range'_succ, countP_cons]
    split_ifs with href
    · obtain ⟨j', refs', heq, hcount⟩ :=
        ih (i + 1) (j + 1) (Function.update refs j.toNat (some i.toNat)) (by omega) (by omega)
      rw [hi', hj'] at hcount
      exact ⟨j', refs', heq, by omega⟩
    · obtain ⟨j', refs', heq, hcount⟩ := ih (i + 1) j refs (by omega) (by omega)
      rw [hi'] at hcount
      exact ⟨j', refs', heq, by omega⟩

/-- The second loop reaches the end of the list. -/
theorem isSome_clearRefs {size : ℕ} (hsize : size < 256) (n : ℕ) (j : UInt8)
    (refs : ℕ → Option ℕ) (hj : size ≤ j.toNat + n) : (clearRefs size (n + 1) j refs).isSome := by
  induction n generalizing j refs with
  | zero =>
    have hend : ¬ j.toNat < size := by omega
    rw [clearRefs, if_neg hend]
    rfl
  | succ n ih =>
    rw [clearRefs]
    split_ifs with hlt
    · have hj' : (j + 1).toNat = j.toNat + 1 := by
        rw [UInt8.toNat_add]
        exact Nat.mod_eq_of_lt (by change j.toNat + 1 < 256; omega)
      exact ih (j + 1) _ (by omega)
    · rfl

theorem collectRefs_mono {isRef : ℕ → Bool} {fuel fuel' : ℕ} (hle : fuel ≤ fuel') {i j : UInt8}
    {refs : ℕ → Option ℕ} {v : UInt8 × (ℕ → Option ℕ)}
    (h : collectRefs isRef usedSize fuel i j refs = some v) :
    collectRefs isRef usedSize fuel' i j refs = some v := by
  induction fuel generalizing fuel' i j refs with
  | zero => exact absurd h nofun
  | succ fuel ih =>
    obtain ⟨fuel', rfl⟩ : ∃ k, fuel' = k + 1 := ⟨fuel' - 1, by omega⟩
    rw [collectRefs] at h ⊢
    split_ifs at h ⊢
    · exact ih (by omega) h
    · exact ih (by omega) h
    · exact h

/-- The loops end when the stores in use and the size can be counted in eight bits, with
    the number of references. -/
theorem updateRefLoops_eq (isRef : ℕ → Bool) {size : ℕ} (hused : usedSize < 256)
    (hsize : size < 256) (refs : ℕ → Option ℕ) :
    ∃ refs', updateRefLoops isRef usedSize size 256 refs =
      some ((List.range usedSize).countP isRef, refs') := by
  obtain ⟨j, refs₁, hcollect, hcount⟩ :=
    collectRefs_eq isRef hused usedSize 0 0 refs (Nat.zero_add _) le_rfl
  obtain ⟨refs₂, hclear⟩ :=
    isSome_iff_exists.1 (isSome_clearRefs hsize 255 j refs₁ (by omega))
  have hcollect := collectRefs_mono (show usedSize + 1 ≤ 256 by omega) hcollect
  change clearRefs size 256 j refs₁ = some refs₂ at hclear
  rw [show (0 : UInt8).toNat = 0 from rfl, Nat.zero_add, ← range_eq_range'] at hcount
  refine ⟨refs₂, ?_⟩
  rw [updateRefLoops, hcollect, bind_eq_bind, bind_some]
  dsimp only
  rw [hclear, bind_eq_bind, bind_some, hcount]

/-! ## The table -/

theorem interLayerEntry_eq (i : ℕ) (il : Option InterLayer) :
    interLayerEntry structure_ i il = List.range' i (interLayerEntry structure_ 0 il).length := by
  cases il with
  | none => rfl
  | some s =>
    rw [interLayerEntry, interLayerEntry]
    split_ifs
    · rfl
    · rfl

/-- The entries are the first ones of the table. -/
theorem dpbInfoEntries_eq (refs ltrefs : ℕ) (il : Option InterLayer) :
    dpbInfoEntries structure_ refs ltrefs il =
      List.range (refs + ltrefs + (interLayerEntry structure_ 0 il).length) := by
  rw [dpbInfoEntries, interLayerEntry_eq, range_add, range_add, range'_eq_map_range]

/-- A store with a field of either kind is counted twice. -/
theorem countP_or_add_countP_and (p q : ℕ → Bool) (l : List ℕ) :
    l.countP p + l.countP q = (l.countP fun i => p i || q i) + l.countP fun i => p i && q i := by
  induction l with
  | nil => rfl
  | cons i l ih =>
    rw [countP_cons, countP_cons, countP_cons, countP_cons]
    cases p i <;> cases q i <;> simp <;> omega

theorem DpbView.entries_lt_iff (d : DpbView) :
    (∀ i ∈ dpbInfoEntries d.structure_ ((List.range d.usedSize).countP d.isShort)
      ((List.range d.usedSize).countP d.isLong) d.interLayer, i < maxDpbSize) ↔ d.Sparse := by
  rw [dpbInfoEntries_eq, countP_or_add_countP_and]
  constructor
  · intro h
    by_contra hlt
    exact absurd (h maxDpbSize (mem_range.2 (not_le.1 hlt))) (lt_irrefl maxDpbSize)
  · intro hle i hi
    exact lt_of_lt_of_le (mem_range.1 hi) hle

/-- Stores that are short-term or long-term references find a place, as there are no more of them
    than the table has entries. -/
theorem DpbView.sparse_of_mixed {d : DpbView} (hused : d.usedSize ≤ maxDpbSize)
    (hmixed : d.mixed = 0) (hviews : d.otherViews = 0) : d.Sparse := by
  have hle : d.references ≤ (List.range d.usedSize).length := countP_le_length
  rw [length_range] at hle
  rw [Sparse]
  omega

/-! ## The size that can be used -/

/-- A set that is let through gives a size that can be used exactly when its product and
    its number of frames fit, and the references find places in the table. -/
theorem dpbSize_usable_iff {subset : Option SubsetViews} {sps : Sps} {pps : Pps}
    {hw : Option HwCap} (hcheck : checkSpsPps sps subset pps hw = mppOk) {d : DpbView}
    (hd : d.Within profileIdc subset sps) :
    SizeUsable profileIdc subset sps d ↔ sps.PicFits ∧ sps.FramesFit ∧ d.Sparse := by
  obtain ⟨hrefs, hwidth, hviews⟩ := checked_of_checkSpsPps hcheck
  constructor
  · rintro ⟨hdefined, hsize, -, hentries⟩
    have hpic := (isSome_getDpbSize_iff hrefs hwidth hviews).1 hdefined
    obtain ⟨f, hf, hlo, hhi, hfits⟩ :=
      getDpbSize_spec profileIdc hrefs hwidth hviews hpic
    have hinit : initDpbSize profileIdc subset sps = some (max 1 (f % 2 ^ 32).toNat) := by
      rw [initDpbSize, hf]
      rfl
    have hle := (hsize _ hinit).2
    rw [maxDpbSize] at hle
    exact ⟨hpic, hfits.1 (by omega), d.entries_lt_iff.1 hentries⟩
  · rintro ⟨hpic, hframes, hsparse⟩
    obtain ⟨f, hf, hlo, hhi, hfits⟩ :=
      getDpbSize_spec profileIdc hrefs hwidth hviews hpic
    have hrange := hfits.2 hframes
    have hsize : ∀ size, initDpbSize profileIdc subset sps = some size →
        1 ≤ size ∧ size ≤ maxDpbSize := by
      intro size hinit
      rw [initDpbSize, hf] at hinit
      obtain rfl := some_inj.1 hinit
      rw [maxDpbSize]
      omega
    refine ⟨(isSome_getDpbSize_iff hrefs hwidth hviews).2 hpic, hsize, ?_,
      d.entries_lt_iff.2 hsparse⟩
    intro size hinit refs
    have hlt : size < 256 := lt_of_le_of_lt (hsize size hinit).2 (by decide)
    have hused : d.usedSize < 256 := lt_of_le_of_lt (hd size hinit) hlt
    obtain ⟨refs₁, hshort⟩ := updateRefLoops_eq d.isShort hused hlt refs
    obtain ⟨refs₂, hlong⟩ := updateRefLoops_eq d.isLong hused hlt refs
    exact ⟨256, by rw [hshort]; rfl, by rw [hlong]; rfl⟩

/-- A parameter set for pictures of `1920x1088`, with a number of frames of its own. -/
def fullHdSps (maxDecFrameBuffering : UInt32) : Sps where
  valid := true
  profileIdc := profileBaseline
  levelIdc := 40
  chromaFormatIdc := 1
  picOrderCntType := 2
  maxNumRefFrames := 1
  picWidthInMbsMinus1 := 119
  picHeightInMapUnitsMinus1 := 67
  frameMbsOnlyFlag := true
  vuiParametersPresentFlag := true
  vuiSeqParameters := { bitstreamRestrictionFlag := true, maxDecFrameBuffering }
  maxDecFrameBuffering := 4

/-- A buffer with one reference. -/
def oneRef : DpbView where
  usedSize := 1
  isShort _ := true
  isLong _ := false
  structure_ := .frame

theorem fullHdSps_usable : checkSpsPps (fullHdSps 4) none {} none = mppOk ∧
    SizeUsable profileBaseline none (fullHdSps 4) oneRef :=
  have hcheck : checkSpsPps (fullHdSps 4) none {} none = mppOk := by decide +kernel
  have hwithin : oneRef.Within profileBaseline none (fullHdSps 4) := fun size hsize =>
    le_max_left 1 _ |>.trans_eq (some_inj.1 hsize)
  ⟨hcheck, (dpbSize_usable_iff profileBaseline hcheck hwithin).2
    ⟨⟨by decide +kernel, by decide +kernel, by decide +kernel⟩, .inl (by decide +kernel),
      DpbView.sparse_of_mixed (by decide) (by decide) (by decide)⟩⟩

/-- The bits of a set for `100` frames. -/
def hundredFrames : List UInt8 :=
  [0x42, 0x00, 0x28, 0xda, 0x01, 0xe0, 0x08, 0x9a, 0x01, 0xfc, 0x0c, 0xb0]

/-- The set is accepted and let through, and the buffer gets `100` stores. -/
theorem hundredFrames_unusable :
    processSps (mppSetBitreadPseudoCodeType (mppSetBitreadCtx hundredFrames) .h264H265) =
      some (mppOk, some (fullHdSps 100)) ∧
    checkSpsPps (fullHdSps 100) none {} none = mppOk ∧
    initDpbSize profileBaseline none (fullHdSps 100) = some 100 ∧
    ¬SizeUsable profileBaseline none (fullHdSps 100) oneRef := by
  have hinit : initDpbSize profileBaseline none (fullHdSps 100) = some 100 := by decide +kernel
  refine ⟨by decide +kernel, by decide +kernel, hinit, fun husable => ?_⟩
  exact absurd (husable.size 100 hinit).2 (by decide)

end Libmpp.H264d
