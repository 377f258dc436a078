import Libmpp.Bitstream.Cursor
import Libmpp.Lib.Machine
import Libmpp.Lib.Widths

/-!
# The uncompressed header of a VP9 frame

The reading of the header of a frame (`vp9d_parser.c`): a program over the bits of a packet,
with the fields of `Vp9DecCtx` and `VP9Context` that it reads or writes, and what the decoder
does with the frame sizes and the probability contexts between two headers.

* An index outside of its table, a product or a shift that does not fit in its type and a
  division by zero are a fault, and so is a loop that shifts by the width of its type.
* The probabilities are of any type, with the default ones as a parameter, as are the two
  tables of quantiser steps. Of the compressed header there is what reading it returns; of the
  slots there is nothing, as no reference fails there (`reachable_refLife`). The table of loop filter
  limits, which nothing reads, is left out.
-/

namespace Libmpp.Vp9d

open Base Bitstream

/-! ## Data -/

/-- `MppFrameFormat`, of the frames there are here -/
inductive MppFrameFormat
  | yuv420sp | yuv420sp10bit
deriving DecidableEq, Repr

/-- `MppFrameColorSpace`, of the table -/
inductive MppFrameColorSpace
  | rgb | bt709 | unspecified | reserved | bt470bg | smpte170m | smpte240m | bt2020Ncl
deriving DecidableEq, Repr

/-- `MppFrameColorRange` -/
inductive MppFrameColorRange
  | unspecified | mpeg | jpeg
deriving DecidableEq, Repr

def colorspacesTable : Fin 8 → MppFrameColorSpace :=
  ![.unspecified, .bt470bg, .bt709, .smpte170m, .smpte240m, .bt2020Ncl, .reserved, .rgb]

/-- Of `MppFrame`, the size and the format. -/
structure MppFrame where
  width : ℕ := 0
  height : ℕ := 0
  fmt : MppFrameFormat := .yuv420sp
deriving DecidableEq, Repr

/-- An entry of the references, with whether its info is there. -/
structure RefFrame where
  f : MppFrame := {}
  ref : Bool := false
deriving DecidableEq, Repr

structure LfDelta where
  enabled : Bool := false
  update : Bool := false
  mode : Fin 2 → ℤ := fun _ => 0
  ref : Fin 4 → ℤ := fun _ => 0

structure SegFeat where
  qEnabled : Bool := false
  lfEnabled : Bool := false
  refEnabled : Bool := false
  skipEnabled : Bool := false
  refVal : ℕ := 0
  qVal : ℤ := 0
  lfVal : ℤ := 0
  qmul : Fin 2 → Fin 2 → ℤ := fun _ _ => 0

structure Segmentation where
  enabled : Bool := false
  temporal : Bool := false
  absoluteVals : Bool := false
  updateMap : Bool := false
  ignoreRefmap : Bool := false
  feat : Fin 8 → SegFeat := fun _ => {}

structure Tiling where
  log2TileCols : ℕ := 0
  log2TileRows : ℕ := 0
  tileCols : ℕ := 0
  tileRows : ℕ := 0

/-- The fields of `Vp9DecCtx` and `VP9Context` of the header. `cBSize` counts the readers
    that `c_b` has room for. -/
structure HeaderContext (P : Type) where
  pixFmt : MppFrameFormat := .yuv420sp
  profile : ℕ := 0
  colorspace : MppFrameColorSpace := .rgb
  colorRange : MppFrameColorRange := .unspecified
  width : ℕ := 0
  height : ℕ := 0
  showExistingFrame : Bool := false
  keyframe : Bool := false
  lastKeyframe : Bool := false
  lastBpp : ℕ := 0
  bpp : ℕ := 0
  bppIndex : ℕ := 0
  bytesperpixel : ℕ := 0
  showFrameFlag : Bool := false
  useLastFrameMvs : Bool := false
  errorResMode : Bool := false
  subsamplingX : ℕ := 0
  subsamplingY : ℕ := 0
  extraPlane : ℕ := 0
  intraonly : Bool := false
  resetctx : ℕ := 0
  refreshFrameFlags : ℕ := 0
  allowHighPrecisionMv : Bool := false
  interpFilter : ℕ := 0
  refreshFrameContext : Bool := false
  frameParallelMode : Bool := false
  frameContextIdx : ℕ := 0
  refidx : Fin 3 → ℕ := fun _ => 0
  signbias : Fin 3 → Bool := fun _ => false
  /-- `frames[VP9_CUR_FRAME].f` -/
  curFrame : MppFrame := {}
  refs : Fin 8 → RefFrame := fun _ => {}
  gotKeyframes : ℕ := 0
  filterLevel : ℕ := 0
  filterSharpness : ℤ := -1
  lfDelta : LfDelta := {}
  baseQindex : ℕ := 0
  yDcDeltaQ : ℕ := 0
  uvDcDeltaQ : ℕ := 0
  uvAcDeltaQ : ℕ := 0
  lossless : Bool := false
  segmentation : Segmentation := {}
  tiling : Tiling := {}
  sbCols : ℕ := 0
  sbRows : ℕ := 0
  rows : ℕ := 0
  cols : ℕ := 0
  probCtx : Fin 4 → P
  seg : Fin 7 → ℕ := fun _ => 0
  segpred : Fin 3 → ℕ := fun _ => 0
  mvscale : Fin 3 → ℕ × ℕ := fun _ => (0, 0)
  mvstep : Fin 3 → ℕ × ℕ := fun _ => (0, 0)
  cB : Bool := false
  cBSize : ℕ := 0
  uncompressHeadSizeInByte : ℕ := 0
  firstPartitionSize : ℕ := 0

/-- The tables of `vp9d_codec.c`. -/
structure Vp9Tables (P : Type) where
  dcQlookup : Fin 3 → Fin 256 → ℤ
  acQlookup : Fin 3 → Fin 256 → ℤ
  /-- `vp9_default_probs`, with `vp9_default_coef_probs` -/
  defaultProbs : P

/-! ## Checked operations -/

/-- What a header stops with: the label, an error it returns, or a fault. -/
inductive HeaderStop
  | bitreadErr
  | failed (ret : MppRet)
  | fault
deriving DecidableEq

instance : BitreadErr HeaderStop := ⟨.bitreadErr⟩

variable {P : Type}

abbrev HeaderParse (P : Type) := EStateM HeaderStop (Cursor (HeaderContext P))

/-- A value, or a fault where there is none. -/
def orFault {α : Type} : Option α → HeaderParse P α
  | some a => pure a
  | none => throw .fault

/-- An entry of a table. -/
def entryAt {α : Type} {n : ℕ} (t : Fin n → α) (i : ℕ) : Option α :=
  if h : i < n then some (t ⟨i, h⟩) else none

/-- A product of the type `RK_U32`. -/
def mulU32 (a b : ℕ) : Option ℕ := if a * b < 2 ^ 32 then some (a * b) else none

/-- A shift of the type `RK_U32`, that loses no bits. -/
def shlU32 (a n : ℕ) : Option ℕ := if a <<< n < 2 ^ 32 then some (a <<< n) else none

def divU32 (a b : ℕ) : Option ℕ := if b = 0 then none else some (a / b)

/-- `mpp_clip_uint_pow2` -/
def mppClipUintPow2 (val : ℤ) (n : ℕ) : ℕ :=
  if val >>> n = 0 then val.toNat else if -val < 0 then 2 ^ n - 1 else 0

/-- `READ_SIGNBITS` -/
def signField (numBits : ℕ) : HeaderParse P ℤ := do
  let out ← bitsField numBits
  let sign ← flagField
  return if sign then -out else out

/-- A flag, and what follows it when it is set. -/
def ifFlag (p : HeaderParse P Unit) : HeaderParse P Unit := do
  let val ← flagField
  whenever val p

/-! ## The start -/

def readProfile : HeaderParse P Unit := do
  let marker ← bitsField 2
  whenever (marker ≠ 2) (throw (.failed mppErrStream))
  into (bitsField 1) fun val s => { s with profile := val }
  into (bitsField 1) fun val s => { s with profile := s.profile ||| val <<< 1 }
  let s ← get
  whenever (s.val.profile > 2) <|
    into (bitsField 1) fun val s => { s with profile := s.profile + val }
  let s ← get
  whenever (s.val.profile ≠ 0 ∧ s.val.profile ≠ 2) (throw (.failed mppErrStream))

/-- The kind of the frame. Without a key frame so far there is nothing to decode. -/
def readFrameFlags : HeaderParse P Unit := do
  alter fun s => { s with lastKeyframe := s.keyframe }
  into flagField fun val s => { s with keyframe := !val }
  let s ← get
  let lastInvisible := s.val.showFrameFlag
  into flagField fun val s => { s with showFrameFlag := !val }
  into flagField fun val s => { s with errorResMode := val }
  alter fun s => { s with useLastFrameMvs := !s.errorResMode && !lastInvisible }
  alter fun s => { s with gotKeyframes := (s.gotKeyframes + if s.keyframe then 1 else 0) % 2 ^ 32 }
  let s ← get
  whenever (s.val.gotKeyframes = 0) (throw (.failed mppErrStream))
  alter fun s => { s with mvscale := fun _ => (16, 16) }

/-- The bytes of the sync code, and whether they are right. -/
def readCodes : HeaderParse P Bool := do
  let code0 ← bitsField 8
  let code1 ← bitsField 8
  let code2 ← bitsField 8
  return code0 = 0x49 ∧ code1 = 0x83 ∧ code2 = 0x42

/-- `read_synccode`, which finds no code when the bits are not there. -/
def readSynccode : HeaderParse P Bool := fun s =>
  match readCodes s with
  | .ok b s => .ok b s
  | .error _ s => .ok false s

/-- The sync code has to be there. -/
def checkSynccode : HeaderParse P Unit := do
  let sync ← readSynccode
  whenever (!sync) (throw (.failed mppErrStream))

/-- The bits of a sample above eight, in pairs, which the second profile has. -/
def readBits (profile : ℕ) : HeaderParse P ℕ :=
  if profile = 2 then do
    let bits ← bitsField 1
    return bits + 1
  else pure 0

/-- The bit depth, the colour space and the sampling of a key frame. -/
def readBitdepthColorspaceSampling : HeaderParse P MppFrameFormat := do
  let s ← get
  let bits ← readBits s.val.profile
  alter fun s => { s with
    bppIndex := bits
    bpp := 8 + bits * 2
    bytesperpixel := (7 + (8 + bits * 2)) >>> 3 }
  let val ← bitsField 3
  let colorspace ← orFault (entryAt colorspacesTable val)
  alter fun s => { s with colorspace }
  whenever (colorspace = .rgb) (throw (.failed mppErrStream))
  into flagField fun val s => { s with
    colorRange := if val then .jpeg else .mpeg
    extraPlane := 0
    subsamplingX := 1
    subsamplingY := 1 }
  return if bits = 0 then .yuv420sp else .yuv420sp10bit

/-! ## Sizes -/

def readFrameSize : HeaderParse P (ℕ × ℕ) := do
  let w ← bitsField 16
  let h ← bitsField 16
  return (w + 1, h + 1)

/-- The display size, which is not kept. -/
def readDisplaySize : HeaderParse P Unit :=
  ifFlag do
    let _ ← bitsField 16
    let _ ← bitsField 16

def readKeyframe : HeaderParse P (ℕ × ℕ × MppFrameFormat) := do
  checkSynccode
  let fmt ← readBitdepthColorspaceSampling
  alter fun s => { s with refreshFrameFlags := 0xff }
  let (w, h) ← readFrameSize
  readDisplaySize
  return (w, h, fmt)

def readIntraonly : HeaderParse P (ℕ × ℕ × MppFrameFormat) := do
  checkSynccode
  alter fun s => { s with
    subsamplingX := 1
    subsamplingY := 1
    bpp := 8
    bppIndex := 0
    bytesperpixel := 1
    colorspace := .bt470bg
    colorRange := .jpeg }
  into (bitsField 8) fun val s => { s with refreshFrameFlags := val }
  let (w, h) ← readFrameSize
  readDisplaySize
  return (w, h, .yuv420sp)

/-- A reference of the frame. That it is not available is only noted. -/
def readRef (i : Fin 3) : HeaderParse P Unit := do
  into (bitsField 3) fun val s => { s with refidx := Function.update s.refidx i val }
  into flagField fun val s => { s with
    signbias := Function.update s.signbias i (val && !s.errorResMode) }
  let s ← get
  let _ ← orFault (entryAt s.val.refs (s.val.refidx i))

/-- The size of the first reference with a flag. -/
def sizeWithRefs : List (Fin 3) → HeaderParse P (Option (ℕ × ℕ))
  | [] => pure none
  | i :: l => do
    let val ← flagField
    if val then do
      let s ← get
      let ref ← orFault (entryAt s.val.refs (s.val.refidx i))
      pure (some (ref.f.width, ref.f.height))
    else sizeWithRefs l

/-- The size of the frame, from a reference or by itself. -/
def readSizeWithRefs : HeaderParse P (ℕ × ℕ) := do
  let found ← sizeWithRefs (List.finRange 3)
  match found with
  | some size => pure size
  | none => readFrameSize

/-- The scale of a reference to the frame, in one direction. -/
def scaleTo (ref size : ℕ) : Option ℕ := do
  let shifted ← shlU32 ref 14
  divU32 shifted size

/-- A reference may be twice as large as the frame, and the frame 16 times as large as it. -/
def dimensionsInvalid (refw refh w h : ℕ) : Option Bool := do
  let w2 ← mulU32 w 2
  let h2 ← mulU32 h 2
  let refw16 ← mulU32 16 refw
  let refh16 ← mulU32 16 refh
  return w2 < refw ∨ h2 < refh ∨ w > refw16 ∨ h > refh16

/-- The scale of a reference is kept in 16 bits, and its step in 8. -/
def HeaderContext.withScale (s : HeaderContext P) (i : Fin 3) (x y : ℕ) : HeaderContext P :=
  { s with mvscale := Function.update s.mvscale i (x % 2 ^ 16, y % 2 ^ 16) }

def HeaderContext.withStep (s : HeaderContext P) (i : Fin 3) : HeaderContext P :=
  let (x, y) := s.mvscale i
  { s with
    mvstep := Function.update s.mvstep i ((16 * x) >>> 14 % 2 ^ 8, (16 * y) >>> 14 % 2 ^ 8) }

def setMvscale (w h : ℕ) (fmt : MppFrameFormat) (i : Fin 3) : HeaderParse P Unit := do
  let s ← get
  let ref ← orFault (entryAt s.val.refs (s.val.refidx i))
  if ref.f.fmt ≠ fmt then pure ()
  else if ref.f.width = w ∧ ref.f.height = h then do
    let x ← orFault (scaleTo ref.f.width w)
    let y ← orFault (scaleTo ref.f.height h)
    alter fun s => s.withScale i x y
  else do
    let invalid ← orFault (dimensionsInvalid ref.f.width ref.f.height w h)
    whenever invalid (throw (.failed mppErrValue))
    let x ← orFault (scaleTo ref.f.width w)
    let y ← orFault (scaleTo ref.f.height h)
    alter fun s => (s.withScale i x y).withStep i

/-- The filter, or that it is switchable. -/
def readInterpFilter : HeaderParse P Unit := do
  let val ← flagField
  if val then alter fun s => { s with interpFilter := 4 }
  else into (bitsField 2) fun val s => { s with interpFilter := val }

def readInter : HeaderParse P (ℕ × ℕ × MppFrameFormat) := do
  let s ← get
  let fmt := s.val.pixFmt
  into (bitsField 8) fun val s => { s with refreshFrameFlags := val }
  loopOver readRef (List.finRange 3)
  let (w, h) ← readSizeWithRefs
  whenever (w = 0 ∨ h = 0) (throw (.failed mppErrStream))
  alter fun s => { s with
    useLastFrameMvs := s.useLastFrameMvs && s.curFrame.width = w && s.curFrame.height = h }
  readDisplaySize
  into flagField fun val s => { s with allowHighPrecisionMv := val }
  readInterpFilter
  loopOver (setMvscale w h fmt) (List.finRange 3)
  return (w, h, fmt)

/-- The size and the format of a frame that is no key frame. -/
def readNonKeyframe : HeaderParse P (ℕ × ℕ × MppFrameFormat) := do
  alter fun s => { s with intraonly := false }
  let s ← get
  whenever s.val.showFrameFlag <| into flagField fun val s => { s with intraonly := val }
  alter fun s => { s with resetctx := 0 }
  whenever (!s.val.errorResMode) <|
    into (bitsField 2) fun val s => { s with resetctx := val }
  let s ← get
  if s.val.intraonly then readIntraonly else readInter

/-! ## The frame -/

/-- How the contexts change with the frame. -/
def readContextFlags : HeaderParse P Unit := do
  let s ← get
  if s.val.errorResMode then
    alter fun s => { s with refreshFrameContext := false, frameParallelMode := true }
  else do
    into flagField fun val s => { s with refreshFrameContext := val }
    into flagField fun val s => { s with frameParallelMode := val }

def readContext : HeaderParse P Unit := do
  readContextFlags
  into (bitsField 2) fun val s => { s with frameContextIdx := val }

def setDefaultDeltas (s : HeaderContext P) : HeaderContext P :=
  if s.keyframe || s.intraonly || s.errorResMode then
    { s with lfDelta := {
        enabled := true
        update := true
        ref := ![1, 0, -1, -1]
        mode := fun _ => 0 } }
  else s

def readRefDelta (i : Fin 4) : HeaderParse P Unit :=
  ifFlag <| into (signField 6) fun val s => { s with
    lfDelta := { s.lfDelta with ref := Function.update s.lfDelta.ref i val } }

def readModeDelta (i : Fin 2) : HeaderParse P Unit :=
  ifFlag <| into (signField 6) fun val s => { s with
    lfDelta := { s.lfDelta with mode := Function.update s.lfDelta.mode i val } }

def readLoopfilter : HeaderParse P Unit := do
  alter setDefaultDeltas
  into (bitsField 6) fun val s => { s with filterLevel := val }
  into (bitsField 3) fun val s => { s with filterSharpness := val }
  into flagField fun val s => { s with lfDelta := { s.lfDelta with enabled := val } }
  let s ← get
  whenever s.val.lfDelta.enabled do
    into flagField fun val s => { s with lfDelta := { s.lfDelta with update := val } }
    let s ← get
    whenever s.val.lfDelta.update do
      loopOver readRefDelta (List.finRange 4)
      loopOver readModeDelta (List.finRange 2)

/-- The quantiser. The deltas are kept without their sign, as bytes. -/
def readQuantization : HeaderParse P Unit := do
  into (bitsField 8) fun val s => { s with baseQindex := val }
  alter fun s => { s with yDcDeltaQ := 0 }
  ifFlag <| into (signField 4) fun val s => { s with yDcDeltaQ := (val % 2 ^ 8).toNat }
  alter fun s => { s with uvDcDeltaQ := 0 }
  ifFlag <| into (signField 4) fun val s => { s with uvDcDeltaQ := (val % 2 ^ 8).toNat }
  alter fun s => { s with uvAcDeltaQ := 0 }
  ifFlag <| into (signField 4) fun val s => { s with uvAcDeltaQ := (val % 2 ^ 8).toNat }
  alter fun s => { s with
    lossless := s.baseQindex = 0 ∧ s.yDcDeltaQ = 0 ∧ s.uvDcDeltaQ = 0 ∧ s.uvAcDeltaQ = 0 }

namespace HeaderContext

/-- Write the segmentation. -/
def withSeg (s : HeaderContext P) (f : Segmentation → Segmentation) : HeaderContext P :=
  { s with segmentation := f s.segmentation }

/-- Write a feature of a segment. -/
def withFeat (s : HeaderContext P) (i : Fin 8) (f : SegFeat → SegFeat) : HeaderContext P :=
  s.withSeg fun g => { g with feat := Function.update g.feat i (f (g.feat i)) }

end HeaderContext

def readTreeProb (i : Fin 7) : HeaderParse P Unit := do
  alter fun s => { s with seg := Function.update s.seg i 255 }
  ifFlag <| into (bitsField 8) fun val s => { s with seg := Function.update s.seg i val }

def readPredProb (i : Fin 3) : HeaderParse P Unit := do
  alter fun s => { s with segpred := Function.update s.segpred i 255 }
  ifFlag <| into (bitsField 8) fun val s => { s with segpred := Function.update s.segpred i val }

def readSegmentationMap : HeaderParse P Unit := do
  loopOver readTreeProb (List.finRange 7)
  into flagField fun val s => s.withSeg fun g => { g with temporal := val }
  let s ← get
  if s.val.segmentation.temporal then loopOver readPredProb (List.finRange 3)
  else alter fun s => { s with segpred := fun _ => 0xff }

def readFeature (i : Fin 8) : HeaderParse P Unit := do
  into flagField fun val s => s.withFeat i fun f => { f with qEnabled := val }
  let s ← get
  whenever (s.val.segmentation.feat i).qEnabled <|
    into (signField 8) fun val s => s.withFeat i fun f => { f with qVal := val }
  into flagField fun val s => s.withFeat i fun f => { f with lfEnabled := val }
  let s ← get
  whenever (s.val.segmentation.feat i).lfEnabled <|
    into (signField 6) fun val s => s.withFeat i fun f => { f with lfVal := val }
  into flagField fun val s => s.withFeat i fun f => { f with refEnabled := val }
  let s ← get
  whenever (s.val.segmentation.feat i).refEnabled <|
    into (bitsField 2) fun val s => s.withFeat i fun f => { f with refVal := val }
  into flagField fun val s => s.withFeat i fun f => { f with skipEnabled := val }

/-- The segmentation. A map from a frame of another size is not refused. -/
def readSegmentation : HeaderParse P Unit := do
  alter fun s => s.withSeg fun g => { g with updateMap := false, ignoreRefmap := false }
  into flagField fun val s => s.withSeg fun g => { g with enabled := val }
  let s ← get
  if s.val.segmentation.enabled then do
    into flagField fun val s => s.withSeg fun g => { g with updateMap := val }
    let s ← get
    whenever s.val.segmentation.updateMap readSegmentationMap
    ifFlag do
      into flagField fun val s => s.withSeg fun g => { g with absoluteVals := val }
      loopOver readFeature (List.finRange 8)
  else alter fun s => s.withFeat 0 fun f => { f with
    qEnabled := false
    lfEnabled := false
    refEnabled := false
    skipEnabled := false }

/-- The step of a quantiser index, from a table. -/
def qlookup (t : Fin 3 → Fin 256 → ℤ) (bppIndex q : ℕ) : Option ℤ := do
  let row ← entryAt t bppIndex
  entryAt row q

variable (T : Vp9Tables P) (s : HeaderContext P)

/-- The quantiser index of a segment. -/
def HeaderContext.yAcQ (i : Fin 8) : ℤ :=
  let feat := s.segmentation.feat i
  if feat.qEnabled then
    if s.segmentation.absoluteVals then feat.qVal else s.baseQindex + feat.qVal
  else s.baseQindex

/-- The dequantisation values of a segment. -/
def buildDequant (i : Fin 8) : HeaderParse P Unit := do
  let s ← get
  let q := s.val.yAcQ i
  let yDcQ := mppClipUintPow2 (q + s.val.yDcDeltaQ) 8
  let uvDcQ := mppClipUintPow2 (q + s.val.uvDcDeltaQ) 8
  let uvAcQ := mppClipUintPow2 (q + s.val.uvAcDeltaQ) 8
  let yAcQ := mppClipUintPow2 q 8
  let yDc ← orFault (qlookup T.dcQlookup s.val.bppIndex yDcQ)
  let yAc ← orFault (qlookup T.acQlookup s.val.bppIndex yAcQ)
  let uvDc ← orFault (qlookup T.dcQlookup s.val.bppIndex uvDcQ)
  let uvAc ← orFault (qlookup T.acQlookup s.val.bppIndex uvAcQ)
  alter fun s => s.withFeat i fun f => { f with qmul := ![![yDc, yAc], ![uvDc, uvAc]] }

/-- `update_size` -/
def updateSize (w h : ℕ) (fmt : MppFrameFormat) (s : HeaderContext P) : HeaderContext P :=
  if w = s.width ∧ h = s.height ∧ s.pixFmt = fmt then s
  else { s with
    width := w
    height := h
    pixFmt := fmt
    sbCols := (w + 63) >>> 6
    sbRows := (h + 63) >>> 6
    cols := (w + 7) >>> 3
    rows := (h + 7) >>> 3
    lastBpp := s.bpp }

/-- The first shift, from `k` on, that makes the columns meet `stop`. -/
def shiftUntil (stop : ℕ → Bool) (sbCols : ℕ) : ℕ → ℕ → Option ℕ
  | 0, _ => none
  | fuel + 1, k => if stop (sbCols >>> k) then some k else shiftUntil stop sbCols fuel (k + 1)

/-- The minimum of `log2_tile_cols` -/
def minLog2 (sbCols : ℕ) : Option ℕ := shiftUntil (· ≤ 64) sbCols 32 0

/-- The maximum of `log2_tile_cols` -/
def maxLog2 (sbCols : ℕ) : Option ℕ := (shiftUntil (· < 4) sbCols 32 0).map (· - 1)

/-- The bits that make the tiles more, at most as many as there may be. -/
def readTileCols : ℕ → HeaderParse P Unit
  | 0 => pure ()
  | n + 1 => do
    let flag ← flagField
    whenever flag do
      alter fun s => { s with
        tiling := { s.tiling with log2TileCols := s.tiling.log2TileCols + 1 } }
      readTileCols n

/-- The readers of the tile columns, more of them when there were not enough. -/
def growReaders (room : Bool) (s : HeaderContext P) : HeaderContext P :=
  if s.tiling.tileCols > s.cBSize then { s with cB := room, cBSize := s.tiling.tileCols } else s

def readTileRows : HeaderParse P Unit := do
  into (bitsField 1) fun val s => { s with tiling := { s.tiling with log2TileRows := val } }
  let s ← get
  whenever (s.val.tiling.log2TileRows ≠ 0) <| into (bitsField 1) fun val s => { s with
    tiling := { s.tiling with log2TileRows := s.tiling.log2TileRows + val } }

/-- Other tile columns than before need as many readers. -/
def setTileCols (room : Bool) : HeaderParse P Unit := do
  let s ← get
  whenever (s.val.tiling.tileCols ≠ 1 <<< s.val.tiling.log2TileCols) do
    alter fun s => growReaders room { s with
      tiling := { s.tiling with tileCols := 1 <<< s.tiling.log2TileCols } }
    let s ← get
    whenever (!s.val.cB) (throw (.failed mppErrNomem))

def readTiles (room : Bool) : HeaderParse P Unit := do
  let s ← get
  let least ← orFault (minLog2 s.val.sbCols)
  alter fun s => { s with tiling := { s.tiling with log2TileCols := least } }
  let most ← orFault (maxLog2 s.val.sbCols)
  readTileCols (most - least)
  readTileRows
  alter fun s => { s with tiling := { s.tiling with tileRows := 1 <<< s.tiling.log2TileRows } }
  setTileCols room

/-! ## The header -/

/-- The probability contexts that a frame starts from: the default ones for all of them, or for
    its own. -/
def startContexts : Option (Fin 4 → P) :=
  if s.keyframe || s.errorResMode || (s.intraonly && s.resetctx = 3) then
    some fun _ => T.defaultProbs
  else if s.intraonly && s.resetctx = 2 then
    if h : s.frameContextIdx < 4 then
      some (Function.update s.probCtx ⟨s.frameContextIdx, h⟩ T.defaultProbs)
    else none
  else some s.probCtx

/-- The frame context is set, and its index reset for a frame without references. -/
def setFrameContext : Option (HeaderContext P) :=
  (startContexts T s).map fun probCtx => { s with
    probCtx
    frameContextIdx :=
      if s.keyframe || s.errorResMode || s.intraonly then 0 else s.frameContextIdx }

def readSizeAndFormat : HeaderParse P (ℕ × ℕ × MppFrameFormat) := do
  let s ← get
  if s.val.keyframe then readKeyframe else readNonKeyframe

/-- All of the header of a new frame before its contexts are set. -/
def readFrameHeader (room : Bool) : HeaderParse P Unit := do
  readFrameFlags
  let (w, h, fmt) ← readSizeAndFormat
  readContext
  readLoopfilter
  readQuantization
  readSegmentation
  let s ← get
  loopOver (buildDequant T) (if s.val.segmentation.enabled then List.finRange 8 else [0])
  alter (updateSize w h fmt)
  readTiles room

/-- `mpp_align_get_bits`, with the bytes that are left -/
def alignGetBits : HeaderParse P (List UInt8) := fun s =>
  .ok s.reader.data { s with reader := { s.reader with numRemainingBitsInCurrByte := 0 } }

/-- The contexts, and the size of the compressed header, which has to be there. -/
def endFrameHeader (size : ℕ) : HeaderParse P Unit := do
  let s ← get
  let reset ← orFault (setFrameContext T s.val)
  alter fun _ => reset
  into (bitsField 16) fun val s => { s with firstPartitionSize := val }
  let alignedData ← alignGetBits
  alter fun s => { s with uncompressHeadSizeInByte := size - alignedData.length }
  let s ← get
  whenever (s.val.firstPartitionSize > size - s.val.uncompressHeadSizeInByte)
    (throw (.failed mppErrStream))

/-- All of a header before its contexts are set, with the frame to show when that is one there
    is. -/
def readHeaderStart (room : Bool) : HeaderParse P (Option ℕ) := do
  readProfile
  into flagField fun val s => { s with showExistingFrame := val }
  let s ← get
  if s.val.showExistingFrame then do
    let refo ← bitsField 3
    return some refo
  else do
    readFrameHeader T room
    return none

/-- `read_uncompressed_header` of `size` bytes, with the frame to show. `room` is whether
    memory for the readers is found. -/
def readUncompressedHeader (size : ℕ) (room : Bool) : HeaderParse P (Option ℕ) := do
  let refo ← readHeaderStart T room
  whenever (refo = none) (endFrameHeader T size)
  return refo

/-! ## Packets -/

/-- A packet at the decoder, with whether memory for the readers is found, what reading its
    compressed header returns, and the probabilities of the frame. -/
structure HeaderPacket (P : Type) where
  data : List UInt8
  room : Bool
  compressed : MppRet
  prob : P

/-- Of a packet, the reader at its start. -/
def HeaderPacket.start (pkt : HeaderPacket P) (s : HeaderContext P) : Cursor (HeaderContext P) where
  val := s
  reader := mppSetBitreadCtx pkt.data

/-- The header of a packet. -/
def HeaderPacket.header (pkt : HeaderPacket P) (T : Vp9Tables P) (s : HeaderContext P) :
    EStateM.Result HeaderStop (Cursor (HeaderContext P)) (Option ℕ) :=
  readUncompressedHeader T pkt.data.length pkt.room (pkt.start s)

/-- The context of the frame gets its probabilities, if it is to be refreshed. -/
def saveProb (refresh : Bool) (prob : P) (s : HeaderContext P) : Option (HeaderContext P) :=
  if refresh then
    if h : s.frameContextIdx < 4 then
      some { s with probCtx := Function.update s.probCtx ⟨s.frameContextIdx, h⟩ prob }
    else none
  else some s

/-- A new frame, of the size of the header, which takes the place of the references it
    refreshes. -/
def refreshFrames (prob : P) (s : HeaderContext P) : Option (HeaderContext P) := do
  let cur : MppFrame := { width := s.width, height := s.height, fmt := s.pixFmt }
  let s := { s with curFrame := cur }
  let s ← saveProb (s.refreshFrameContext && s.frameParallelMode) prob s
  return { s with refs := fun i =>
    if s.refreshFrameFlags.testBit i then { f := cur, ref := true } else s.refs i }

/-- `vp9_parser_update`, with the probabilities that the frame adapts its context to. -/
def parserUpdate (prob : P) (s : HeaderContext P) : Option (HeaderContext P) :=
  saveProb (s.refreshFrameContext && !s.frameParallelMode) prob s

/-- `vp9d_paser_reset` -/
def paserReset : HeaderContext P :=
  { s with gotKeyframes := 0, refs := fun i => { s.refs i with ref := false } }

/-- `vp9_parser_frame`, none for a fault. -/
def parserFrame (pkt : HeaderPacket P) : Option (HeaderContext P) :=
  if pkt.data = [] then some s
  else match pkt.header T s with
    | .error .fault _ => none
    | .error _ s => some s.val
    | .ok (some ref) s => (entryAt s.val.refs ref).map fun _ => s.val
    | .ok none s => if pkt.compressed < 0 then some s.val else refreshFrames pkt.prob s.val

/-- What happens to the decoder: a packet, new probabilities of the last frame, or a reset. -/
inductive HeaderAction (P : Type)
  | packet (pkt : HeaderPacket P)
  | update (prob : P)
  | reset

def headerStep : HeaderAction P → Option (HeaderContext P)
  | .packet pkt => parserFrame T s pkt
  | .update prob => parserUpdate prob s
  | .reset => some (paserReset s)

/-- The runs of the decoder, from no packets and no probabilities. -/
def headerMachine (noProb : P) : Machine (HeaderContext P) (HeaderAction P) :=
  .ofPartial { probCtx := fun _ => noProb } (headerStep T)

end Libmpp.Vp9d
