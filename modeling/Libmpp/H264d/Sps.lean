import Libmpp.Bitstream.Cursor
import Libmpp.H264d.SliceHeader

/-!
# Sequence parameter sets of the H.264 decoder

`parser_sps` of `h264d_sps.c`, with the functions that read the scaling lists, the video
usability information and the parameters of the reference decoder in it.

Numbers that are kept signed are integers. Of the scaling lists, the cropping and the
usability information only the fields are kept that the size of the buffer depends on; the
others are read. Two calls in `parser_sps` go on after an error, with the reader where the
error has left it (`unchecked`).
-/

namespace Libmpp.H264d

open Base Bitstream

instance : BitreadErr Jump := ⟨.bitreadErr⟩

def profileBaseline : ℕ := 66
def profileMain : ℕ := 77
def profileExtended : ℕ := 88
def profileHigh : ℕ := 100
def profileHigh10 : ℕ := 110
def profileHigh422 : ℕ := 122
def profileHigh444 : ℕ := 244
def profileFrextCavlc444 : ℕ := 44
def profileMvcHigh : ℕ := 118
def profileStereoHigh : ℕ := 128

/-- `MAXSPS` -/
def maxSps : ℕ := 32

/-- The usability information (`H264_VUI_t`). -/
structure Vui where
  nalHrdParametersPresentFlag : Bool := false
  vclHrdParametersPresentFlag : Bool := false
  bitstreamRestrictionFlag : Bool := false
  numReorderFrames : UInt32 := 0
  maxDecFrameBuffering : UInt32 := 0
  deriving DecidableEq, Repr

/-- A sequence parameter set (`H264_SPS_t`). -/
structure Sps where
  valid : Bool := false
  profileIdc : ℕ := 0
  constrainedSet3Flag : Bool := false
  levelIdc : ℕ := 0
  seqParameterSetId : ℕ := 0
  chromaFormatIdc : ℤ := 0
  bitDepthLumaMinus8 : ℤ := 0
  bitDepthChromaMinus8 : ℤ := 0
  qpprimeYZeroTransformBypassFlag : Bool := false
  separateColourPlaneFlag : Bool := false
  log2MaxFrameNumMinus4 : ℤ := 0
  picOrderCntType : ℤ := 0
  log2MaxPicOrderCntLsbMinus4 : ℤ := 0
  deltaPicOrderAlwaysZeroFlag : Bool := false
  numRefFramesInPicOrderCntCycle : ℤ := 0
  maxNumRefFrames : ℤ := 0
  picWidthInMbsMinus1 : ℤ := 0
  picHeightInMapUnitsMinus1 : ℤ := 0
  frameMbsOnlyFlag : Bool := false
  mbAdaptiveFrameFieldFlag : Bool := false
  vuiParametersPresentFlag : Bool := false
  vuiSeqParameters : Vui := {}
  maxDecFrameBuffering : ℤ := 0
  deriving DecidableEq, Repr

abbrev SpsParse := EStateM Jump (Cursor Sps)

/-- What a function returns, from its end or from the label. -/
def returned {σ : Type} (p : EStateM Jump (Cursor σ) Unit) (s : Cursor σ) : MppRet × Cursor σ :=
  match p s with
  | .ok _ s => (mppOk, s)
  | .error .bitreadErr s => (s.bitRet, s)
  | .error (.failed ret) s => (ret, s)

/-- `VAL_CHECK` -/
def valCheck (b : Bool) : SpsParse Unit := whenever (!b) (throw (.failed mppErrValue))

/-- Read a field that is not kept. -/
def skipField {α : Type} (p : SpsParse α) : SpsParse Unit := p >>= fun _ => pure ()

/-! ## Scaling lists -/

/-- The entries of a scaling list, `n` of them. -/
def parseScalingList : ℕ → ℤ → ℤ → SpsParse Unit
  | 0, _, _ => return
  | n + 1, lastScale, nextScale =>
    if nextScale = 0 then parseScalingList n lastScale 0
    else do
      let deltaScale ← seField
      let nextScale := (lastScale + deltaScale + 256) % 256
      parseScalingList n (if nextScale = 0 then lastScale else nextScale) nextScale

/-- A flag, and a list of `size` entries when it is set. -/
def parseScalingEntry (size : ℕ) : SpsParse Unit := do
  let present ← flagField
  whenever present (parseScalingList size 8 8)

def parseSpsScalinglists : SpsParse Unit := do
  loopFrom (fun _ => parseScalingEntry 16) 6 0
  let s ← get
  loopFrom (fun _ => parseScalingEntry 64) (if s.val.chromaFormatIdc ≠ 3 then 2 else 6) 0

/-! ## Usability information -/

/-- The parameters of a schedule. -/
def readSched : SpsParse Unit := do
  skipField ueField
  skipField ueField
  skipField flagField

def readHrdParameters : SpsParse Unit := do
  let cpbCntMinus1 ← ueField
  valCheck (cpbCntMinus1 < 32)
  skipField (bitsField 4)
  skipField (bitsField 4)
  loopFrom (fun _ => readSched) (cpbCntMinus1.toNat + 1) 0
  skipField (bitsField 5)
  skipField (bitsField 5)
  skipField (bitsField 5)
  skipField (bitsField 5)

/-- A flag, and what follows it when it is set. -/
def readPresent (p : SpsParse Unit) : SpsParse Unit := do
  let present ← flagField
  whenever present p

def readAspectRatio : SpsParse Unit := do
  let aspectRatioIdc ← bitsField 8
  whenever (aspectRatioIdc = 255) do
    skipField (bitsField 16)
    skipField (bitsField 16)

def readColourDescription : SpsParse Unit := do
  skipField (bitsField 8)
  skipField (bitsField 8)
  skipField (bitsField 8)

def readVideoSignalType : SpsParse Unit := do
  skipField (bitsField 3)
  skipField flagField
  readPresent readColourDescription

/-- A number of `32` bits is read in two halves. -/
def readTimingInfo : SpsParse Unit := do
  skipField (bitsField 16)
  skipField (bitsField 16)
  skipField (bitsField 16)
  skipField (bitsField 16)
  skipField flagField

def alterVui (f : Vui → Vui) (s : Sps) : Sps := { s with vuiSeqParameters := f s.vuiSeqParameters }

def readBitstreamRestriction : SpsParse Unit := do
  skipField flagField
  skipField ueField
  skipField ueField
  skipField ueField
  skipField ueField
  into ueField fun numReorderFrames => alterVui ({ · with numReorderFrames })
  into ueField fun maxDecFrameBuffering => alterVui ({ · with maxDecFrameBuffering })

/-- `read_VUI` -/
def readVui : SpsParse Unit := do
  readPresent readAspectRatio
  readPresent (skipField flagField)
  readPresent readVideoSignalType
  readPresent do
    skipField ueField
    skipField ueField
  readPresent readTimingInfo
  into flagField fun nalHrdParametersPresentFlag =>
    alterVui ({ · with nalHrdParametersPresentFlag })
  let s ← get
  whenever s.val.vuiSeqParameters.nalHrdParametersPresentFlag readHrdParameters
  into flagField fun vclHrdParametersPresentFlag =>
    alterVui ({ · with vclHrdParametersPresentFlag })
  let s ← get
  let vui := s.val.vuiSeqParameters
  whenever vui.vclHrdParametersPresentFlag readHrdParameters
  whenever (vui.nalHrdParametersPresentFlag || vui.vclHrdParametersPresentFlag)
    (skipField flagField)
  skipField flagField
  into flagField fun bitstreamRestrictionFlag => alterVui ({ · with bitstreamRestrictionFlag })
  let s ← get
  whenever s.val.vuiSeqParameters.bitstreamRestrictionFlag readBitstreamRestriction

/-! ## The set -/

/-- The profiles that are parsed. -/
def knownProfiles : List ℕ :=
  [profileBaseline, profileMain, profileExtended, profileHigh, profileHigh10, profileHigh422,
    profileHigh444, profileFrextCavlc444, profileMvcHigh, profileStereoHigh]

/-- The profiles with a chroma format. -/
def chromaProfiles : List ℕ := [100, 110, 122, 244, 44, 83, 86, 118, 128, 138]

/-- The fields of the high profiles. A format of three full planes and lossless coding are
    not supported. -/
def readChroma : SpsParse Unit := do
  into ueField fun v s => { s with chromaFormatIdc := toS32 v }
  let s ← get
  valCheck (s.val.chromaFormatIdc ≤ 3)
  whenever (s.val.chromaFormatIdc > 2) (throw (.failed mppErrUnknow))
  into ueField fun v s => { s with bitDepthLumaMinus8 := toS32 v }
  into ueField fun v s => { s with bitDepthChromaMinus8 := toS32 v }
  into flagField fun qpprimeYZeroTransformBypassFlag s =>
    { s with qpprimeYZeroTransformBypassFlag }
  let s ← get
  whenever s.val.qpprimeYZeroTransformBypassFlag (throw (.failed mppErrUnknow))
  let present ← flagField
  whenever present (unchecked parseSpsScalinglists)

/-- The cycle of order count type 1. -/
def readCycle : SpsParse Unit := do
  into flagField fun deltaPicOrderAlwaysZeroFlag s => { s with deltaPicOrderAlwaysZeroFlag }
  skipField seField
  skipField seField
  into ueField fun v s => { s with numRefFramesInPicOrderCntCycle := toS32 v }
  let s ← get
  valCheck (s.val.numRefFramesInPicOrderCntCycle < 256)
  loopFrom (fun _ => skipField seField) s.val.numRefFramesInPicOrderCntCycle.toNat 0

def readCropping : SpsParse Unit := loopFrom (fun _ => skipField ueField) 4 0

/-- The first fields, up to the id. An id that is too large is zero. -/
def readProfile : SpsParse Unit := do
  alter ({ · with
    chromaFormatIdc := 1, bitDepthLumaMinus8 := 0, bitDepthChromaMinus8 := 0
    qpprimeYZeroTransformBypassFlag := false, separateColourPlaneFlag := false
    log2MaxPicOrderCntLsbMinus4 := 0 })
  into (bitsField 8) fun profileIdc s => { s with profileIdc }
  let s ← get
  valCheck (s.val.profileIdc ∈ knownProfiles)
  loopFrom (fun _ => skipField flagField) 3 0
  into flagField fun constrainedSet3Flag s => { s with constrainedSet3Flag }
  loopFrom (fun _ => skipField flagField) 2 0
  skipField (bitsField 2)
  into (bitsField 8) fun levelIdc s => { s with levelIdc }
  into ueField fun v s =>
    { s with seqParameterSetId := if v.toNat ≥ maxSps then 0 else v.toNat }

/-- The numbers of the frames and their order. -/
def readFrameNumbers : SpsParse Unit := do
  into ueField fun v s => { s with log2MaxFrameNumMinus4 := toS32 v }
  into ueField fun v s => { s with picOrderCntType := toS32 v }
  alter ({ · with log2MaxPicOrderCntLsbMinus4 := 0, deltaPicOrderAlwaysZeroFlag := false })
  let s ← get
  whenever (s.val.picOrderCntType = 0)
    (into ueField fun v s => { s with log2MaxPicOrderCntLsbMinus4 := toS32 v })
  whenever (s.val.picOrderCntType = 1) readCycle
  into ueField fun v s => { s with maxNumRefFrames := toS32 v }

/-- The dimensions of a picture. -/
def readDimensions : SpsParse Unit := do
  skipField flagField
  into ueField fun v s => { s with picWidthInMbsMinus1 := toS32 v }
  into ueField fun v s => { s with picHeightInMapUnitsMinus1 := toS32 v }
  into flagField fun frameMbsOnlyFlag s => { s with frameMbsOnlyFlag }
  let s ← get
  whenever (!s.val.frameMbsOnlyFlag)
    (into flagField fun mbAdaptiveFrameFieldFlag s => { s with mbAdaptiveFrameFieldFlag })
  skipField flagField
  readPresent readCropping

/-- The fields of a set. -/
def readSps : SpsParse Unit := do
  readProfile
  let s ← get
  whenever (s.val.profileIdc ∈ chromaProfiles) readChroma
  readFrameNumbers
  readDimensions
  into flagField fun vuiParametersPresentFlag s => { s with vuiParametersPresentFlag }
  let s ← get
  whenever s.val.vuiParametersPresentFlag (unchecked readVui)

def parserSps : Cursor Sps → MppRet × Cursor Sps := returned do
  readSps
  alter ({ · with valid := true })

/-! ## A set that is read -/

/-- The id is in the range. -/
def Sps.HasId (sps : Sps) : Prop := sps.seqParameterSetId < maxSps

/-- What the function returns is an error. -/
def Explained : Jump → Cursor Sps → Prop
  | .bitreadErr, s => s.bitRet < 0
  | .failed ret, _ => ret < 0

/-- A program that keeps the id in the range, and returns an error when it jumps out. -/
abbrev Sound {α : Type} (p : SpsParse α) : Prop := Preserves Sps.HasId Explained p

section Sound

variable {α : Type}

theorem explained_label (s : Cursor Sps) (h : s.bitRet = mppErrReadBit) :
    Explained BitreadErr.label s := by
  change s.bitRet < 0
  rw [h]
  decide

theorem sound_ue : Sound (ueField : SpsParse UInt32) := .field explained_label _ _

theorem sound_se : Sound (seField : SpsParse ℤ) := .field explained_label _ _

theorem sound_flag : Sound (flagField : SpsParse Bool) := .field explained_label _ _

theorem sound_bits (numBits : ℕ) : Sound (bitsField numBits : SpsParse ℕ) :=
  .field explained_label _ _

theorem sound_skip {p : SpsParse α} (h : Sound p) : Sound (skipField p) := h.bind fun _ => .pure ()

/-- A field other than the id is stored. -/
theorem sound_store {p : SpsParse α} {store : α → Sps → Sps} (hp : Sound p)
    (h : ∀ a v, (store a v).seqParameterSetId = v.seqParameterSetId) :
    Sound (into p store) :=
  hp.into fun a v hv => (h a v).trans_lt hv

theorem sound_valCheck (b : Bool) : Sound (valCheck b) :=
  .whenever _ (.throw fun _ => (by decide : mppErrValue < 0))

theorem sound_unknow : Sound (throw (.failed mppErrUnknow) : SpsParse Unit) :=
  .throw fun _ => (by decide : mppErrUnknow < 0)

theorem sound_present {p : SpsParse Unit} (h : Sound p) : Sound (readPresent p) :=
  sound_flag.bind fun b => h.whenever b

theorem sound_scalingList (n : ℕ) (lastScale nextScale : ℤ) :
    Sound (parseScalingList n lastScale nextScale) := by
  induction n generalizing lastScale nextScale with
  | zero => exact .pure ()
  | succ n ih =>
    rw [parseScalingList]
    split_ifs
    · exact ih _ _
    · exact sound_se.bind fun _ => ih _ _

theorem sound_scalinglists : Sound parseSpsScalinglists := by
  have hentry : ∀ size, Sound (parseScalingEntry size) := fun size =>
    sound_flag.bind fun b => (sound_scalingList size 8 8).whenever b
  exact (Preserves.loopFrom (fun _ => hentry 16) _ _).bind fun _ =>
    .bind .get fun _ => .loopFrom (fun _ => hentry 64) _ _

theorem sound_hrdParameters : Sound readHrdParameters := by
  have hsched : Sound readSched :=
    (sound_skip sound_ue).bind fun _ => (sound_skip sound_ue).bind fun _ => sound_skip sound_flag
  exact sound_ue.bind fun _ => (sound_valCheck _).bind fun _ =>
    (sound_skip (sound_bits 4)).bind fun _ => (sound_skip (sound_bits 4)).bind fun _ =>
    (Preserves.loopFrom (fun _ => hsched) _ _).bind fun _ =>
    (sound_skip (sound_bits 5)).bind fun _ => (sound_skip (sound_bits 5)).bind fun _ =>
    (sound_skip (sound_bits 5)).bind fun _ => sound_skip (sound_bits 5)

theorem sound_restriction : Sound readBitstreamRestriction := by
  refine (sound_skip sound_flag).bind fun _ => (sound_skip sound_ue).bind fun _ =>
    (sound_skip sound_ue).bind fun _ => (sound_skip sound_ue).bind fun _ =>
    (sound_skip sound_ue).bind fun _ => (sound_store sound_ue ?_).bind fun _ =>
    sound_store sound_ue ?_
  all_goals exact fun _ _ => rfl

theorem sound_aspectRatio : Sound readAspectRatio :=
  (sound_bits 8).bind fun _ => .whenever _
    ((sound_skip (sound_bits 16)).bind fun _ => sound_skip (sound_bits 16))

theorem sound_videoSignalType : Sound readVideoSignalType := by
  have hcolour : Sound readColourDescription :=
    (sound_skip (sound_bits 8)).bind fun _ => (sound_skip (sound_bits 8)).bind fun _ =>
    sound_skip (sound_bits 8)
  exact (sound_skip (sound_bits 3)).bind fun _ => (sound_skip sound_flag).bind fun _ =>
    sound_present hcolour

theorem sound_timingInfo : Sound readTimingInfo :=
  (sound_skip (sound_bits 16)).bind fun _ => (sound_skip (sound_bits 16)).bind fun _ =>
  (sound_skip (sound_bits 16)).bind fun _ => (sound_skip (sound_bits 16)).bind fun _ =>
  sound_skip sound_flag

theorem sound_vui : Sound readVui := by
  refine (sound_present sound_aspectRatio).bind fun _ =>
    (sound_present (sound_skip sound_flag)).bind fun _ =>
    (sound_present sound_videoSignalType).bind fun _ =>
    (sound_present ((sound_skip sound_ue).bind fun _ => sound_skip sound_ue)).bind fun _ =>
    (sound_present sound_timingInfo).bind fun _ =>
    (sound_store sound_flag ?_).bind fun _ => .bind .get fun _ =>
    (Preserves.whenever _ sound_hrdParameters).bind fun _ =>
    (sound_store sound_flag ?_).bind fun _ => .bind .get fun _ =>
    (Preserves.whenever _ sound_hrdParameters).bind fun _ =>
    (Preserves.whenever _ (sound_skip sound_flag)).bind fun _ =>
    (sound_skip sound_flag).bind fun _ => (sound_store sound_flag ?_).bind fun _ =>
    .bind .get fun _ => .whenever _ sound_restriction
  all_goals exact fun _ _ => rfl

theorem sound_chroma : Sound readChroma := by
  refine (sound_store sound_ue ?_).bind fun _ => .bind .get fun _ =>
    (sound_valCheck _).bind fun _ => (Preserves.whenever _ sound_unknow).bind fun _ =>
    (sound_store sound_ue ?_).bind fun _ => (sound_store sound_ue ?_).bind fun _ =>
    (sound_store sound_flag ?_).bind fun _ => .bind .get fun _ =>
    (Preserves.whenever _ sound_unknow).bind fun _ => sound_flag.bind fun _ =>
    .whenever _ sound_scalinglists.unchecked
  all_goals exact fun _ _ => rfl

theorem sound_cycle : Sound readCycle := by
  refine (sound_store sound_flag ?_).bind fun _ => (sound_skip sound_se).bind fun _ =>
    (sound_skip sound_se).bind fun _ => (sound_store sound_ue ?_).bind fun _ =>
    .bind .get fun _ => (sound_valCheck _).bind fun _ =>
    .loopFrom (fun _ => sound_skip sound_se) _ _
  all_goals exact fun _ _ => rfl

theorem sound_profile : Sound readProfile := by
  refine (Preserves.alter (by exact fun _ h => h)).bind fun _ =>
    (sound_store (sound_bits 8) ?_).bind fun _ =>
    .bind .get fun _ => (sound_valCheck _).bind fun _ =>
    (Preserves.loopFrom (fun _ => sound_skip sound_flag) _ _).bind fun _ =>
    (sound_store sound_flag ?_).bind fun _ =>
    (Preserves.loopFrom (fun _ => sound_skip sound_flag) _ _).bind fun _ =>
    (sound_skip (sound_bits 2)).bind fun _ => (sound_store (sound_bits 8) ?_).bind fun _ =>
    sound_ue.into fun v s _ => by
      change (if v.toNat ≥ maxSps then 0 else v.toNat) < maxSps
      split_ifs with hlarge
      · decide
      · exact not_le.1 hlarge
  all_goals exact fun _ _ => rfl

theorem sound_frameNumbers : Sound readFrameNumbers := by
  refine (sound_store sound_ue ?_).bind fun _ => (sound_store sound_ue ?_).bind fun _ =>
    (Preserves.alter (by exact fun _ h => h)).bind fun _ => .bind .get fun _ =>
    (Preserves.whenever _ (sound_store sound_ue ?_)).bind fun _ =>
    (Preserves.whenever _ sound_cycle).bind fun _ => sound_store sound_ue ?_
  all_goals exact fun _ _ => rfl

theorem sound_dimensions : Sound readDimensions := by
  refine (sound_skip sound_flag).bind fun _ => (sound_store sound_ue ?_).bind fun _ =>
    (sound_store sound_ue ?_).bind fun _ => (sound_store sound_flag ?_).bind fun _ =>
    .bind .get fun _ => (Preserves.whenever _ (sound_store sound_flag ?_)).bind fun _ =>
    (sound_skip sound_flag).bind fun _ =>
    sound_present (.loopFrom (fun _ => sound_skip sound_ue) _ _)
  all_goals exact fun _ _ => rfl

end Sound

/-- A set that is parsed is valid, and its id is in the range. -/
theorem parserSps_spec {s : Cursor Sps} (hs : s.val.HasId) (h : ¬(parserSps s).1 < 0) :
    (parserSps s).2.val.valid = true ∧ (parserSps s).2.val.HasId := by
  have hread : Sound readSps := by
    refine sound_profile.bind fun _ => .bind .get fun _ =>
      (Preserves.whenever _ sound_chroma).bind fun _ => sound_frameNumbers.bind fun _ =>
      sound_dimensions.bind fun _ => (sound_store sound_flag ?_).bind fun _ => .bind .get fun _ =>
      .whenever _ sound_vui.unchecked
    exact fun _ _ => rfl
  rw [parserSps, returned] at h ⊢
  cases hrun : readSps s with
  | ok a s' =>
    have hid := hread.ok hs hrun
    rw [bind_of_ok hrun]
    exact ⟨rfl, hid⟩
  | error e s' =>
    rw [bind_of_error hrun] at h
    have hexp := (hread.error hs hrun).2
    cases e with
    | bitreadErr => exact absurd hexp h
    | failed ret => exact absurd hexp h

end Libmpp.H264d
