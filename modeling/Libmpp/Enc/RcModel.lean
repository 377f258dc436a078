import Libmpp.Enc.RcAccount
import Libmpp.Enc.RcData

/-!
# The rate model

The rate model keeps windows of what the last frames were (`Window`). At the start of a frame its
target is put in the windows of the bits (`bitsModelPreset`), and at the end its own bits replace
it (`bitsModelUpdate`). Other windows get a value at the end only.

The scales are quotients, and a divisor that is zero ends the program: the functions that divide
give no state then.

`rateRuns` are the runs of a rate model, on the calls that the encoder makes of it for a frame
(`tryProcNormalTask`). In a run in which every frame is encoded by the hardware, and neither
dropped nor replaced, and none is an intra refresh frame, every window has the values of the last
frames (`windows_hold`). The target of an intra refresh frame is put in a window as a value, and
stays there (`refresh_target_kept`).
-/

namespace Libmpp.Enc

open Function Option

/-! ## The model -/

/-- `mpp_clip` -/
def mppClip (a amin amax : ℤ) : ℤ := if a < amin then amin else if a > amax then amax else a

/-- `mpp_clip`, of an `RK_U32`. -/
def mppClipU (a : UInt32) (amin amax : ℤ) : UInt32 :=
  UInt32.ofInt (mppClip (toS32 a.toNat) amin amax)

/-- `EncFrmType` -/
inductive EncFrmType
  | interP | interB | intra | interVi | intraRfh
  deriving DecidableEq

/-- `RcMode` -/
inductive RcMode
  | vbr | cbr | fixqp | avbr | smt | se
  deriving DecidableEq

/-- `RcCfg` -/
structure RcCfg where
  width : ℤ := 0
  height : ℤ := 0
  mode : RcMode := .vbr
  bpsTarget : ℤ := 0
  bpsMax : ℤ := 0
  statsTime : ℤ := 1
  initQuality : ℤ := 0
  maxQuality : ℤ := 0
  minQuality : ℤ := 0
  maxIQuality : ℤ := 0
  minIQuality : ℤ := 0
  iQualityDelta : ℤ := 0
  viQualityDelta : ℤ := 0
  fqpMinI : ℤ := 0
  fqpMinP : ℤ := 0
  fqpMaxI : ℤ := 0
  fqpMaxP : ℤ := 0
  debreathEnable : Bool := false
  debreathStrength : ℕ := 0
  hierQpEn : Bool := false
  hierQpDelta : ℕ → ℤ := fun _ => 0
  hierFrameNum : ℕ → ℤ := fun _ => 0
  refreshLen : UInt32 := 0

/-- `EncRcTaskInfo` -/
structure EncRcTaskInfo where
  frameType : EncFrmType := .interP
  bitTarget : ℤ := 0
  bitTargetFix : ℤ := 0
  qualityTarget : ℤ := 0
  qualityMax : ℤ := 0
  qualityMin : ℤ := 0
  bitReal : ℤ := 0
  qualityReal : ℤ := 0
  madi : ℤ := 0
  madp : ℤ := 0
  iblk4Prop : ℤ := 0
  motionLevel : ℤ := 0
  complexLevel : ℤ := 0

/-- The windows of `RcModelV2Ctx`. -/
inductive Window
  | iBit | viBit | pBit | prePBit | preIBit | iRefreshBit | preIMeanQp | madi | madp | motionLevel
  | complexLevel | statBits | gopBits | statRate
  deriving DecidableEq

/-- The sums of the windows of frames of a type, and the scales that are taken from them. -/
structure Scales where
  iSumbits : UInt32 := 0
  iScale : UInt32 := 0
  viSumbits : UInt32 := 0
  viScale : UInt32 := 0
  pSumbits : UInt32 := 0
  pScale : UInt32 := 0
  iRefreshSumbits : UInt32 := 0
  iRefreshScale : UInt32 := 0

/-- `RcModelV2Ctx` -/
structure RcModelV2Ctx extends Scales where
  usrCfg : RcCfg := {}
  data : Window → MppDataV2
  bitPerFrame : ℤ := 0
  firstFrmFlg : Bool := true
  realGbits : ℤ := 0
  preTargetBits : ℤ := 0
  preTargetBitsFix : ℤ := 0
  preTargetBitsFixCount : ℤ := 0
  preRealBitsCount : ℤ := 0
  preRealBits : ℤ := 0
  insBps : ℤ := 0
  lastInstBps : ℤ := 0
  watlThrd : ℤ := 0
  statWatl : ℤ := 0
  nextIRatio : ℤ := 0
  nextRatio : ℤ := 0
  preIQp : ℤ := 0
  prePQp : ℤ := 0
  curScaleQp : ℤ := 0
  startQp : ℤ := 0
  gopQpSum : ℤ := 0
  gopFrmCnt : ℤ := 0
  preIblk4Prop : ℤ := 0
  preMeanQp : ℤ := 0
  reencCnt : ℤ := 0
  qpLayerId : ℕ := 0
  hierFrmCnt : ℕ → ℤ := fun _ => 0

variable (p : RcModelV2Ctx) (info : EncRcTaskInfo)

/-- `mpp_data_preset_v2`, of a window. -/
def RcModelV2Ctx.preset (w : Window) (val : ℤ) : RcModelV2Ctx :=
  { p with data := Function.update p.data w (mppDataPresetV2 (p.data w) val) }

/-- `mpp_data_update_v2`, of a window. -/
def RcModelV2Ctx.update (p : RcModelV2Ctx) (w : Window) (val : ℤ) : RcModelV2Ctx :=
  { p with data := Function.update p.data w (mppDataUpdateV2 (p.data w) val) }

/-- `mpp_data_sum_v2`, of a window. -/
def RcModelV2Ctx.sum (w : Window) : ℤ := mppDataSumV2 (p.data w)

/-- `!!bit` -/
def nonzero (bit : ℤ) : ℤ := if bit ≠ 0 then 1 else 0

/-- The water level with the bits of a frame. -/
def RcModelV2Ctx.nextWatl (bit : ℤ) : ℤ :=
  max 0 (if toS32 (bit + p.statWatl) > p.watlThrd then toS32 (p.watlThrd - p.bitPerFrame)
    else toS32 (bit + p.statWatl - p.bitPerFrame))

/-- The rate and the water level, with the bits of a frame. -/
def RcModelV2Ctx.countBits (bit : ℤ) : RcModelV2Ctx :=
  { p with insBps := (p.sum .statBits).tdiv p.usrCfg.statsTime, statWatl := p.nextWatl bit }

/-- The scale of the I frames, from their window. -/
def RcModelV2Ctx.scaleI : Option RcModelV2Ctx :=
  let iSumbits := UInt32.ofInt (p.sum .iBit)
  if 2 * p.pSumbits = 0 then none
  else some { p with iSumbits, iScale := 80 * iSumbits / (2 * p.pSumbits) }

/-- The scale of the P frames, from their window. -/
def RcModelV2Ctx.scaleP : RcModelV2Ctx :=
  let pSumbits := UInt32.ofInt (p.sum .pBit)
  { p with pSumbits := if pSumbits = 0 then 1 else pSumbits, pScale := 16 }

/-- The scale of the virtual I frames, from their window. -/
def RcModelV2Ctx.scaleVi : Option RcModelV2Ctx :=
  let viSumbits := UInt32.ofInt (p.sum .viBit)
  if 2 * p.pSumbits = 0 then none
  else some { p with
    viSumbits, viScale := mppClipU (80 * viSumbits / (2 * p.pSumbits)) 16 320 }

/-- The scale of the intra refresh frames, from their window. Without a refresh length, there is
    neither a window nor a quotient. -/
def RcModelV2Ctx.scaleRfh : Option RcModelV2Ctx :=
  let iRefreshSumbits := UInt32.ofInt (p.sum .iRefreshBit)
  if p.usrCfg.refreshLen * p.pSumbits = 0 then none
  else some { p with
    iRefreshSumbits
    iRefreshScale :=
      mppClipU (80 * iRefreshSumbits / (p.usrCfg.refreshLen * p.pSumbits)) 16 64 }

/-- `bits_model_preset` -/
def bitsModelPreset : Option RcModelV2Ctx :=
  let p := p.preset .statRate (nonzero info.bitTarget)
  let p := p.preset .statBits info.bitTarget
  let p := p.countBits info.bitTarget
  match info.frameType with
  | .intra => (p.preset .iBit info.bitTarget).scaleI
  | .interP => some (p.preset .pBit info.bitTarget).scaleP
  | .interVi => (p.preset .viBit info.bitTarget).scaleVi
  -- Here the estimates are added as values.
  | .intraRfh => ((p.update .iRefreshBit info.bitTarget).update .madi info.madi).scaleRfh
  | .interB => some p

/-- `bits_model_update` -/
def bitsModelUpdate : Option RcModelV2Ctx :=
  let p := p.update .statRate (nonzero info.bitReal)
  let p := p.update .statBits info.bitReal
  let p := p.countBits info.bitReal
  match info.frameType with
  | .intra => (p.update .iBit info.bitReal).scaleI
  | .interP => some ((p.update .pBit info.bitReal).update .madi info.madi).scaleP
  | .interVi => (p.update .viBit info.bitReal).scaleVi
  | .intraRfh => ((p.update .iRefreshBit info.bitReal).update .madi info.madi).scaleRfh
  | .interB => some p

/-- `moving_judge_update` -/
def movingJudgeUpdate : RcModelV2Ctx :=
  match info.frameType with
  | .intra => (p.update .preIBit info.bitReal).update .preIMeanQp info.qualityReal
  | .interP => (p.update .prePBit info.bitReal).update .madp info.madp
  | _ => p

/-- `bit_statics_update` -/
def bitStaticsUpdate (bit : ℤ) : RcModelV2Ctx :=
  let p := p.update .gopBits bit
  { p with realGbits := p.sum .gopBits }

/-- What `rc_model_v2_end` notes of the frame. -/
def RcModelV2Ctx.noteFrame : RcModelV2Ctx :=
  { p with
    gopFrmCnt := p.gopFrmCnt + 1
    gopQpSum := p.gopQpSum + p.startQp
    preMeanQp := info.qualityReal
    preIblk4Prop := info.iblk4Prop
    preTargetBits := info.bitTarget
    preTargetBitsFix := info.bitTargetFix
    preRealBits := info.bitReal }

/-- The beginning of `rc_model_v2_end`. -/
def RcModelV2Ctx.noteLevels : RcModelV2Ctx :=
  let p := (p.update .motionLevel info.motionLevel).update .complexLevel info.complexLevel
  { p with lastInstBps := p.insBps, firstFrmFlg := false }

/-- `rc_model_v2_end` -/
def rcModelV2End : Option RcModelV2Ctx :=
  if p.usrCfg.mode = .fixqp then some p
  else do
    let q ← bitsModelUpdate (p.noteLevels info) info
    if p.usrCfg.mode = .avbr then
      some ((bitStaticsUpdate (movingJudgeUpdate q info) info.bitReal).noteFrame info)
    else some (q.noteFrame info)

/-- `EncFrmStatus`, as far as the rate model reads it. -/
structure EncFrmStatus where
  isIntra : Bool := false
  isIRefresh : Bool := false
  /-- `ref_mode == REF_TO_PREV_INTRA` -/
  refPrevIntra : Bool := false

/-- The ratios of the QP, and the target of the frame, that `calc_next_i_ratio`, `calc_ratio` and
    `bits_model_alloc` choose, when none of their divisors is zero. -/
structure Plan where
  nextRatio : ℤ := 0
  nextIRatio : ℤ := 0
  preTargetBitsFixCount : ℤ := 0
  preRealBitsCount : ℤ := 0
  bitTarget : ℤ := 0
  bitTargetFix : ℤ := 0

/-- The type of a frame, as `rc_model_v2_start` sets it. -/
def EncFrmStatus.frameType (frm : EncFrmStatus) : EncFrmType :=
  if frm.isIRefresh then .intraRfh
  else if frm.refPrevIntra then .interVi
  else if frm.isIntra then .intra
  else .interP

/-- The qualities that a fixed QP needs. -/
def RcCfg.fixQuality (cfg : RcCfg) : RcCfg :=
  let initQuality := if cfg.initQuality ≤ 0 then 26 else cfg.initQuality
  let maxQuality := if cfg.maxQuality ≤ 0 then initQuality else cfg.maxQuality
  let minQuality := if cfg.minQuality ≤ 0 then initQuality else cfg.minQuality
  { cfg with
    initQuality, maxQuality, minQuality
    maxIQuality := if cfg.maxIQuality ≤ 0 then maxQuality else cfg.maxIQuality
    minIQuality := if cfg.minIQuality ≤ 0 then minQuality else cfg.minIQuality }

/-- The range of the QP of a frame. -/
def EncRcTaskInfo.setRange (cfg : RcCfg) (isIntra : Bool) : EncRcTaskInfo :=
  { info with
    qualityMax := if isIntra then cfg.maxIQuality else cfg.maxQuality
    qualityMin := if isIntra then cfg.minIQuality else cfg.minQuality }

/-- `rc_model_v2_start` -/
def rcModelV2Start (frm : EncFrmStatus) (plan : Plan) (info : EncRcTaskInfo) :
    Option (RcModelV2Ctx × EncRcTaskInfo) :=
  if p.usrCfg.mode = .fixqp then
    let cfg := p.usrCfg.fixQuality
    some ({ p with usrCfg := cfg },
      { info.setRange cfg frm.isIntra with qualityTarget := cfg.initQuality })
  else do
    let info := { info with
      frameType := frm.frameType
      bitTarget := plan.bitTarget
      bitTargetFix := plan.bitTargetFix }
    let p := { p with
      nextRatio := plan.nextRatio
      nextIRatio := plan.nextIRatio
      preTargetBitsFixCount := plan.preTargetBitsFixCount
      preRealBitsCount := plan.preRealBitsCount }
    let info := if p.firstFrmFlg then
        { info with
          qualityTarget := if p.usrCfg.initQuality ≤ 0 then -1 else p.usrCfg.initQuality }
      else info
    let info := info.setRange p.usrCfg frm.isIntra
    let p ← bitsModelPreset p info
    some ({ p with reencCnt := 0 }, info)

/-- The sizes and first values of the windows, and what `bits_frm_init` then gives: new values of
    some windows, and the scales. -/
structure WindowCfg where
  size : Window → ℤ
  value : Window → ℤ
  frmInit : Window → Option ℤ := fun _ => none
  scales : Scales := {}

/-- The size of a window: the one of the intra refresh frames has their number. -/
def WindowCfg.sizeOf (c : WindowCfg) (cfg : RcCfg) (w : Window) : ℤ :=
  if w = .iRefreshBit then toS32 cfg.refreshLen.toNat else c.size w

/-- The value that a new window is filled with. -/
def WindowCfg.fill (c : WindowCfg) (w : Window) : ℤ := (c.frmInit w).getD (c.value w)

/-- A window of `bits_model_init`. -/
def WindowCfg.window (c : WindowCfg) (cfg : RcCfg) (w : Window) : Option MppDataV2 := do
  let data ← mppDataInitV2 (c.sizeOf cfg w) (c.value w)
  match c.frmInit w with
  | some val => mppDataResetV2 data val
  | none => data

/-- The windows, as `bits_model_param_init` makes them: one of the intra refresh frames only when
    there are such frames. -/
def windows (cfg : RcCfg) : List Window :=
  [.iBit, .viBit, .pBit, .prePBit, .preIBit, .preIMeanQp, .madi, .madp, .statRate, .statBits,
    .gopBits] ++ (if cfg.refreshLen = 0 then [] else [.iRefreshBit]) ++ [.motionLevel, .complexLevel]

/-- `rc_model_v2_init`: there are no windows when the QP is fixed. -/
def rcModelV2Init (cfg : RcCfg) (c : WindowCfg) : Option RcModelV2Ctx :=
  if cfg.mode = .fixqp then some { p with usrCfg := cfg, firstFrmFlg := true }
  else if ∀ w ∈ windows cfg, 0 < c.sizeOf cfg w then
    some { p with
      toScales := c.scales
      usrCfg := cfg
      firstFrmFlg := true
      data := fun w =>
        if w ∈ windows cfg then (c.window cfg w).getD (p.data w) else p.data w }
  else none

/-- `update_mode_param`, for the windows. -/
def updateModeParam (size value : ℤ) : Option RcModelV2Ctx := do
  let data ← mppDataInitV2 size value
  some { p with data := Function.update p.data .statBits data }

/-- What the hardware reports of a frame, besides the number of bits. -/
structure Report where
  qualityReal : ℤ := 0
  madi : ℤ := 0
  madp : ℤ := 0
  iblk4Prop : ℤ := 0
  motionLevel : ℤ := 0
  complexLevel : ℤ := 0

/-- The frame with its bits and the report. -/
def EncRcTaskInfo.reported (bits : ℕ) (r : Report) : EncRcTaskInfo :=
  { info with
    bitReal := bits
    qualityReal := r.qualityReal
    madi := r.madi
    madp := r.madp
    iblk4Prop := r.iblk4Prop
    motionLevel := r.motionLevel
    complexLevel := r.complexLevel }

/-- A frame: what the encoder does with it, and what the rate model gets to know. -/
structure FrameData where
  script : Script := {}
  frm : EncFrmStatus := {}
  plan : Plan := {}
  info : EncRcTaskInfo := {}
  report : ℕ → Report := fun _ => {}

/-- The starts of a frame. -/
def startTimes (f : FrameData) :
    ℕ → RcModelV2Ctx × EncRcTaskInfo → Option (RcModelV2Ctx × EncRcTaskInfo)
  | 0, x => some x
  | n + 1, x => rcModelV2Start x.1 f.frm f.plan x.2 >>= startTimes f n

/-- The ends of a frame, from the `n`-th on. -/
def endTimes (f : FrameData) (info : EncRcTaskInfo) :
    ℕ → List ℕ → RcModelV2Ctx → Option RcModelV2Ctx
  | _, [], p => some p
  | n, bits :: l, p =>
    rcModelV2End p (info.reported bits (f.report n)) >>= endTimes f info (n + 1) l

/-- What a frame adds to the history of a window when it is finished. -/
def endValue (mode : RcMode) (info : EncRcTaskInfo) : Window → Option ℤ
  | .statRate => if mode = .fixqp then none else some (nonzero info.bitReal)
  | .statBits => if mode = .fixqp then none else some info.bitReal
  | .motionLevel => if mode = .fixqp then none else some info.motionLevel
  | .complexLevel => if mode = .fixqp then none else some info.complexLevel
  | .iBit => if mode ≠ .fixqp ∧ info.frameType = .intra then some info.bitReal else none
  | .pBit => if mode ≠ .fixqp ∧ info.frameType = .interP then some info.bitReal else none
  | .viBit => if mode ≠ .fixqp ∧ info.frameType = .interVi then some info.bitReal else none
  | .iRefreshBit => if mode ≠ .fixqp ∧ info.frameType = .intraRfh then some info.bitReal else none
  | .madi =>
    if mode ≠ .fixqp ∧ (info.frameType = .interP ∨ info.frameType = .intraRfh) then some info.madi
    else none
  | .preIBit => if mode = .avbr ∧ info.frameType = .intra then some info.bitReal else none
  | .preIMeanQp => if mode = .avbr ∧ info.frameType = .intra then some info.qualityReal else none
  | .prePBit => if mode = .avbr ∧ info.frameType = .interP then some info.bitReal else none
  | .madp => if mode = .avbr ∧ info.frameType = .interP then some info.madp else none
  | .gopBits => if mode = .avbr then some info.bitReal else none

/-- A rate model with the history of its windows, which the code does not keep. -/
structure RcRun where
  ctx : RcModelV2Ctx
  past : Window → ℕ → ℤ

/-- The history behind a finished frame. -/
def RcRun.pushed (r : RcRun) (info : EncRcTaskInfo) (w : Window) : ℕ → ℤ :=
  match endValue r.ctx.usrCfg.mode info w with
  | some v => Enc.pushed v (r.past w)
  | none => r.past w

/-- What happens to a rate model: a configuration, a new frame rate, or a frame. -/
inductive RcOp
  | init (cfg : RcCfg) (c : WindowCfg)
  | refit (size value : ℤ)
  | frame (f : FrameData)

/-- The step of an operation that does not fail. -/
def RcOp.apply (r : RcRun) : RcOp → Option RcRun
  | .init cfg c => do
    let ctx ← rcModelV2Init r.ctx cfg c
    some { ctx, past := fun w _ => c.fill w }
  | .refit size value => do
    let ctx ← updateModeParam r.ctx size value
    some { ctx, past := Function.update r.past .statBits fun _ => value }
  | .frame f => do
    let t ← tryProcNormalTask f.script
    let x ← startTimes f t.1.starts (r.ctx, f.info)
    let ctx ← endTimes f x.2 0 t.1.ends x.1
    some {
      ctx
      past :=
        match t.1.ends with
        | [] => r.past
        | bits :: _ => r.pushed (x.2.reported bits (f.report 0)) }

/-- The runs of a rate model, from the configuration `cfg` on. -/
def rateRuns (cfg : RcCfg) (c : WindowCfg) : Machine RcRun RcOp where
  init r := ∃ p, rcModelV2Init p cfg c = some r.ctx ∧ r.past = fun w _ => c.fill w
  step r op r' := op.apply r = some r'

/-! ## The law -/

/-- Every window has the values of the last frames, and the sum of its values. -/
structure RcRun.Law (r : RcRun) : Prop where
  sum : ∀ w ∈ windows r.ctx.usrCfg, (r.ctx.data w).sum = (r.ctx.data w).total
  val : ∀ w ∈ windows r.ctx.usrCfg, ∀ k < (r.ctx.data w).size,
    (r.ctx.data w).val ((r.ctx.data w).place k) = r.past w k
  getPreVal : ∀ w ∈ windows r.ctx.usrCfg, ∀ k < (r.ctx.data w).size,
    mppDataGetPreValV2 (r.ctx.data w) k = r.past w k
  /-- The sums are right in the middle of a frame, too. -/
  preset : ∀ info q, bitsModelPreset r.ctx info = some q → ∀ w ∈ windows r.ctx.usrCfg,
    (q.data w).sum = (q.data w).total

/-- The product of a value and a size has 31 bits. -/
def Fits (value size : ℤ) : Prop := -2 ^ 31 ≤ value * size ∧ value * size < 2 ^ 31

/-- The sums of new windows have 31 bits. A frame that is not dropped by fps is encoded by the
    hardware, and neither dropped nor replaced; it is no intra refresh frame, and its bits and its
    target are less than 2³¹ apart. -/
def RcOp.Calm : RcOp → Prop
  | .init cfg c => ∀ w ∈ windows cfg,
    Fits (c.value w) (c.sizeOf cfg w) ∧ ∀ v ∈ c.frmInit w, Fits v (c.sizeOf cfg w)
  | .refit size value => Fits value size
  | .frame f =>
    f.script.dropByFps = true ∨ f.script.Plain ∧ f.frm.isIRefresh = false ∧
      ∀ t ok, tryProcNormalTask f.script = some (t, ok) → ∀ bits ∈ t.ends,
        -2 ^ 31 ≤ (bits : ℤ) - f.plan.bitTarget ∧ (bits : ℤ) - f.plan.bitTarget < 2 ^ 31

/-! ### What a frame does to a window -/

/-- The estimate that is put in a window at the start of a frame. -/
def startValue : Window → Option ℤ
  | .statRate => some (nonzero info.bitTarget)
  | .statBits => some info.bitTarget
  | .iBit => if info.frameType = .intra then some info.bitTarget else none
  | .pBit => if info.frameType = .interP then some info.bitTarget else none
  | .viBit => if info.frameType = .interVi then some info.bitTarget else none
  | _ => none

/-- What is added to a window at the start of an intra refresh frame. -/
def startUpdate : Window → Option ℤ
  | .iRefreshBit => if info.frameType = .intraRfh then some info.bitTarget else none
  | .madi => if info.frameType = .intraRfh then some info.madi else none
  | _ => none

/-- The windows that get estimates. -/
def Window.IsPreset (w : Window) : Prop :=
  w = .statRate ∨ w = .statBits ∨ w = .iBit ∨ w = .pBit ∨ w = .viBit

section

variable {p : RcModelV2Ctx} {info : EncRcTaskInfo}

/-- The windows and the configuration are those of before. -/
structure SameData (p q : RcModelV2Ctx) : Prop where
  data : q.data = p.data
  usrCfg : q.usrCfg = p.usrCfg

variable {q : RcModelV2Ctx}

theorem SameData.holds (h : SameData p q) {d : Window → MppDataV2} (hd : ∀ w, p.data w = d w) :
    q.usrCfg = p.usrCfg ∧ ∀ w, q.data w = d w :=
  ⟨h.usrCfg, fun w => (congrFun h.data w).trans (hd w)⟩

theorem RcModelV2Ctx.scaleI_same (h : p.scaleI = some q) : SameData p q := by
  rw [scaleI] at h
  split_ifs at h
  obtain rfl := some.inj h
  exact ⟨rfl, rfl⟩

theorem RcModelV2Ctx.scaleVi_same (h : p.scaleVi = some q) : SameData p q := by
  rw [scaleVi] at h
  split_ifs at h
  obtain rfl := some.inj h
  exact ⟨rfl, rfl⟩

theorem RcModelV2Ctx.scaleRfh_same (h : p.scaleRfh = some q) :
    SameData p q := by
  rw [scaleRfh] at h
  split_ifs at h
  obtain rfl := some.inj h
  exact ⟨rfl, rfl⟩

/-- What the start of a frame leaves. -/
theorem bitsModelPreset_spec (h : bitsModelPreset p info = some q) :
    q.usrCfg = p.usrCfg ∧ ∀ w, q.data w =
      let d := ((startValue info w).map (mppDataPresetV2 (p.data w))).getD (p.data w)
      ((startUpdate info w).map (mppDataUpdateV2 d)).getD d := by
  obtain ⟨ft, t⟩ := info
  cases ft with
  | intra => exact (RcModelV2Ctx.scaleI_same h).holds fun w => by cases w <;> rfl
  | interVi => exact (RcModelV2Ctx.scaleVi_same h).holds fun w => by cases w <;> rfl
  | intraRfh => exact (RcModelV2Ctx.scaleRfh_same h).holds fun w => by cases w <;> rfl
  | interP | interB =>
    obtain rfl := some.inj h
    refine ⟨rfl, fun w => ?_⟩
    cases w <;> rfl

/-- What the bits of a frame add to a window, whatever the mode is. -/
def bitsValue (info : EncRcTaskInfo) : Window → Option ℤ
  | .preIBit | .preIMeanQp | .prePBit | .madp | .gopBits | .motionLevel | .complexLevel => none
  | w => endValue .vbr info w

/-- What the bits of a frame leave. -/
theorem bitsModelUpdate_spec (h : bitsModelUpdate p info = some q) :
    q.usrCfg = p.usrCfg ∧ ∀ w, q.data w =
      ((bitsValue info w).map (mppDataUpdateV2 (p.data w))).getD (p.data w) := by
  obtain ⟨ft, t⟩ := info
  cases ft with
  | intra => exact (RcModelV2Ctx.scaleI_same h).holds fun w => by cases w <;> rfl
  | interVi => exact (RcModelV2Ctx.scaleVi_same h).holds fun w => by cases w <;> rfl
  | intraRfh => exact (RcModelV2Ctx.scaleRfh_same h).holds fun w => by cases w <;> rfl
  | interP | interB =>
    obtain rfl := some.inj h
    refine ⟨rfl, fun w => ?_⟩
    cases w <;> rfl

theorem movingJudgeUpdate_usrCfg (p : RcModelV2Ctx) (info : EncRcTaskInfo) :
    (movingJudgeUpdate p info).usrCfg = p.usrCfg := by
  obtain ⟨ft, t⟩ := info
  cases ft <;> rfl

/-- What the end of a frame leaves. -/
theorem rcModelV2End_spec (h : rcModelV2End p info = some q) :
    q.usrCfg = p.usrCfg ∧ ∀ w, q.data w =
      ((endValue p.usrCfg.mode info w).map (mppDataUpdateV2 (p.data w))).getD (p.data w) := by
  rw [rcModelV2End] at h
  split_ifs at h with hfix havbr
  · obtain rfl := some.inj h
    refine ⟨rfl, fun w => ?_⟩
    rw [hfix]
    cases w <;> rfl
  · obtain ⟨u, hu, h⟩ := bind_eq_some_iff.1 h
    obtain rfl := some.inj h
    obtain ⟨hcfg, hdata⟩ := bitsModelUpdate_spec hu
    refine ⟨(movingJudgeUpdate_usrCfg u info).trans hcfg, fun w => ?_⟩
    have hw := hdata w
    rw [havbr]
    obtain ⟨ft, t⟩ := info
    cases ft <;> cases w <;> first | exact hw | exact congrArg (mppDataUpdateV2 · _) hw
  · obtain ⟨u, hu, h⟩ := bind_eq_some_iff.1 h
    obtain rfl := some.inj h
    obtain ⟨hcfg, hdata⟩ := bitsModelUpdate_spec hu
    refine ⟨hcfg, fun w => (hdata w).trans ?_⟩
    generalize p.usrCfg.mode = mode at hfix havbr
    obtain ⟨ft, t⟩ := info
    cases mode with
    | fixqp => exact absurd rfl hfix
    | avbr => exact absurd rfl havbr
    | _ => cases ft <;> cases w <;> rfl

/-- A frame that is no intra refresh frame adds nothing at its start. -/
theorem startUpdate_eq_none (h : info.frameType ≠ .intraRfh) (w : Window) :
    startUpdate info w = none := by
  cases w with
  | iRefreshBit => exact if_neg h
  | madi => exact if_neg h
  | _ => rfl

/-- What a frame does to a window: its value replaces an estimate, or is added, or there is
    none. -/
theorem frameValue_cases {info' : EncRcTaskInfo} {mode : RcMode} (hmode : mode ≠ .fixqp)
    (hft : info'.frameType = info.frameType) (w : Window) :
    (∃ t v, startValue info w = some t ∧ endValue mode info' w = some v ∧
      (t = info.bitTarget ∧ v = info'.bitReal ∨
        t = nonzero info.bitTarget ∧ v = nonzero info'.bitReal)) ∨
    startValue info w = none ∧ (w.IsPreset → endValue mode info' w = none) := by
  cases w with
  | statRate => exact .inl ⟨_, _, rfl, if_neg hmode, .inr ⟨rfl, rfl⟩⟩
  | statBits => exact .inl ⟨_, _, rfl, if_neg hmode, .inl ⟨rfl, rfl⟩⟩
  | iBit | pBit | viBit =>
    simp only [startValue, endValue, hft, hmode, ne_eq, not_false_eq_true, true_and]
    split_ifs
    · exact .inl ⟨_, _, rfl, rfl, .inl ⟨rfl, rfl⟩⟩
    · exact .inr ⟨rfl, fun _ => rfl⟩
  | _ => exact .inr ⟨rfl, fun h => by simp [Window.IsPreset] at h⟩

/-! ### Runs -/

/-- Every window has its history, and the windows that get estimates are in step. -/
def RcRun.Inv (r : RcRun) : Prop :=
  r.ctx.usrCfg.mode ≠ .fixqp → ∀ w ∈ windows r.ctx.usrCfg,
    (r.ctx.data w).Holds (r.past w) ∧ (w.IsPreset → (r.ctx.data w).InStep)

theorem nonzero_fits (a b : ℤ) :
    -2 ^ 31 ≤ nonzero a - nonzero b ∧ nonzero a - nonzero b < 2 ^ 31 := by
  rw [nonzero, nonzero]
  split_ifs <;> norm_num

/-- A new window. -/
theorem mppDataInitV2_holds {size value : ℤ} {d : MppDataV2} (h : mppDataInitV2 size value = some d)
    (hfits : Fits value size) : (d.Holds fun _ => value) ∧ d.InStep ∧ d.size = size := by
  rw [mppDataInitV2] at h
  split_ifs at h with hsize
  obtain rfl := some.inj h
  have hnat : ((size.toNat : ℕ) : ℤ) = size := Int.toNat_of_nonneg (by omega)
  refine ⟨MppDataV2.Holds.reset (by show 0 < size.toNat; omega) rfl ?_ ?_, rfl, hnat⟩
  · show -2 ^ 31 ≤ value * (size.toNat : ℕ)
    rw [hnat]
    exact hfits.1
  · show value * (size.toNat : ℕ) < 2 ^ 31
    rw [hnat]
    exact hfits.2

/-- A window of a new configuration. -/
theorem WindowCfg.window_holds {c : WindowCfg} {cfg : RcCfg} {w : Window} {d : MppDataV2}
    (h : c.window cfg w = some d) (hc : Fits (c.value w) (c.sizeOf cfg w))
    (hc' : ∀ v ∈ c.frmInit w, Fits v (c.sizeOf cfg w)) : (d.Holds fun _ => c.fill w) ∧ d.InStep := by
  obtain ⟨e, he, h⟩ := bind_eq_some_iff.1 h
  obtain ⟨hholds, hstep, hsize⟩ := mppDataInitV2_holds he hc
  rw [WindowCfg.fill]
  cases hinit : c.frmInit w with
  | none =>
    rw [hinit] at h
    obtain rfl := some.inj h
    exact ⟨hholds, hstep⟩
  | some v =>
    rw [hinit] at h
    obtain rfl := some.inj h
    have hv := hc' v hinit
    rw [← hsize] at hv
    exact ⟨MppDataV2.Holds.reset (Nat.zero_lt_of_lt hholds.summed.posW) hholds.posAhead hv.1 hv.2,
      rfl⟩

/-- A new configuration. -/
theorem rcModelV2Init_inv {p q : RcModelV2Ctx} {cfg : RcCfg} {c : WindowCfg}
    (h : rcModelV2Init p cfg c = some q) (hc : (RcOp.init cfg c).Calm) :
    RcRun.Inv ⟨q, fun w _ => c.fill w⟩ := by
  intro hmode w hw
  rw [rcModelV2Init] at h
  split_ifs at h with hfix hsize
  · obtain rfl := some.inj h
    exact absurd hfix hmode
  · obtain rfl := some.inj h
    have hw : w ∈ windows cfg := hw
    have hpos := hsize w hw
    obtain ⟨d, hd⟩ : ∃ d, c.window cfg w = some d := by
      rw [WindowCfg.window, mppDataInitV2, if_neg (by omega)]
      cases c.frmInit w <;> exact ⟨_, rfl⟩
    dsimp only
    rw [if_pos hw, hd]
    obtain ⟨hholds, hstep⟩ := WindowCfg.window_holds hd (hc w hw).1 (hc w hw).2
    exact ⟨hholds, fun _ => hstep⟩

/-- A new frame rate. -/
theorem updateModeParam_inv {r : RcRun} {size value : ℤ} (hr : r.Inv)
    (h : updateModeParam r.ctx size value = some q) (hfits : Fits value size) :
    RcRun.Inv ⟨q, update r.past .statBits fun _ => value⟩ := by
  obtain ⟨d, hd, h⟩ := bind_eq_some_iff.1 h
  obtain rfl := some.inj h
  obtain ⟨hholds, hstep, -⟩ := mppDataInitV2_holds hd hfits
  intro hmode w hmem
  by_cases hw : w = .statBits
  · subst hw
    dsimp only
    rw [update_self, update_self]
    exact ⟨hholds, fun _ => hstep⟩
  · dsimp only
    rw [update_of_ne hw, update_of_ne hw]
    exact hr hmode w hmem

/-- What the start of a frame leaves: the type and the target of the frame, and the windows. -/
theorem rcModelV2Start_spec {info' : EncRcTaskInfo}
    (hmode : p.usrCfg.mode ≠ .fixqp) {frm : EncFrmStatus} {plan : Plan}
    (h : rcModelV2Start p frm plan info = some (q, info')) :
    info'.frameType = frm.frameType ∧ info'.bitTarget = plan.bitTarget ∧ q.usrCfg = p.usrCfg ∧
      ∀ w, q.data w =
        let d := ((startValue info' w).map (mppDataPresetV2 (p.data w))).getD (p.data w)
        ((startUpdate info' w).map (mppDataUpdateV2 d)).getD d := by
  rw [rcModelV2Start, if_neg hmode] at h
  obtain ⟨u, hu, h⟩ := bind_eq_some_iff.1 h
  obtain ⟨rfl, rfl⟩ := Prod.mk.inj (some.inj h)
  obtain ⟨hcfg, hdata⟩ := bitsModelPreset_spec hu
  refine ⟨?_, ?_, hcfg, hdata⟩
  · dsimp only [EncRcTaskInfo.setRange]
    split_ifs <;> rfl
  · dsimp only [EncRcTaskInfo.setRange]
    split_ifs <;> rfl

/-- A frame with one start and one end. -/
theorem frame_inv {r : RcRun} (hr : r.Inv) {frm : EncFrmStatus} {plan : Plan}
    {info info' info'' : EncRcTaskInfo} {q u : RcModelV2Ctx} (hfrm : frm.isIRefresh = false)
    (hstart : rcModelV2Start r.ctx frm plan info = some (q, info'))
    (hend : rcModelV2End q info'' = some u) (hft : info''.frameType = info'.frameType)
    (hfits : -2 ^ 31 ≤ info''.bitReal - plan.bitTarget ∧ info''.bitReal - plan.bitTarget < 2 ^ 31) :
    RcRun.Inv ⟨u, r.pushed info''⟩ := by
  intro hne w hmem
  obtain ⟨hcfg', hdata'⟩ := rcModelV2End_spec hend
  have hne' : r.ctx.usrCfg.mode ≠ .fixqp := by
    intro hfix
    rw [rcModelV2Start, if_pos hfix] at hstart
    obtain ⟨rfl, -⟩ := Prod.mk.inj (some.inj hstart)
    exact hne (by dsimp only; rw [hcfg']; exact hfix)
  obtain ⟨htype, htarget, hcfg, hdata⟩ := rcModelV2Start_spec hne' hstart
  have hmem : w ∈ windows r.ctx.usrCfg := by
    rw [← hcfg, ← hcfg']
    exact hmem
  obtain ⟨hholds, hstep⟩ := hr hne' w hmem
  have hrfh : info'.frameType ≠ .intraRfh := by
    rw [htype, EncFrmStatus.frameType, hfrm, if_neg Bool.false_ne_true]
    split_ifs <;> exact fun h => EncFrmType.noConfusion h
  have hq : q.data w =
      ((startValue info' w).map (mppDataPresetV2 (r.ctx.data w))).getD (r.ctx.data w) := by
    rw [hdata, startUpdate_eq_none hrfh]
    rfl
  have hpast : r.pushed info'' w = ((endValue r.ctx.usrCfg.mode info'' w).map
      fun v => pushed v (r.past w)).getD (r.past w) := by
    show (match endValue r.ctx.usrCfg.mode info'' w with | some v => _ | none => _) = _
    cases endValue r.ctx.usrCfg.mode info'' w <;> rfl
  dsimp only
  rw [hdata', hcfg, hq, hpast]
  rcases frameValue_cases hne' hft w with ⟨t, v, hstart, hend, hvalue⟩ | ⟨hstart, hend⟩
  · -- The value replaces the estimate.
    have hw : w.IsPreset := by
      by_contra hw
      cases w <;> simp_all [Window.IsPreset, startValue]
    have hvt : -2 ^ 31 ≤ v - t ∧ v - t < 2 ^ 31 := by
      rcases hvalue with ⟨rfl, rfl⟩ | ⟨rfl, rfl⟩
      · rwa [htarget]
      · exact nonzero_fits _ _
    rw [hstart, hend]
    obtain ⟨hnew, hnew'⟩ := hholds.preset_update (hstep hw) hvt.1 hvt.2
    exact ⟨hnew, fun _ => hnew'⟩
  · rw [hstart]
    cases hv : endValue r.ctx.usrCfg.mode info'' w with
    | none => exact ⟨hholds, hstep⟩
    | some v =>
      refine ⟨hholds.update v, fun hw => ?_⟩
      rw [hend hw] at hv
      exact absurd hv (some_ne_none v).symm

/-- A frame that the hardware encodes is started once and ends once. -/
theorem plain_calls {s : Script} {t : EncTask} {ok : Bool}
    (h : tryProcNormalTask s = some (t, ok)) (hfps : s.dropByFps = false) (hplain : s.Plain) :
    t.starts = 1 ∧ t.ends = [t.bitReal] := by
  rcases tryProcNormalTask_cases h hfps with ⟨hnot, -⟩ | ⟨-, -, u, w, -, -, -, hstarts, hends, rfl⟩
  · exact absurd hplain hnot
  · refine ⟨hstarts, ?_⟩
    show w.ends ++ [w.bitReal] = [w.bitReal]
    rw [hends, List.nil_append]

/-- A step of a run. -/
theorem rcOp_inv {r r' : RcRun} {op : RcOp} (hr : r.Inv) (h : op.apply r = some r')
    (hcalm : op.Calm) : r'.Inv := by
  cases op with
  | init cfg c =>
    obtain ⟨q, hq, h⟩ := bind_eq_some_iff.1 h
    obtain rfl := some.inj h
    exact rcModelV2Init_inv hq hcalm
  | refit size value =>
    obtain ⟨q, hq, h⟩ := bind_eq_some_iff.1 h
    obtain rfl := some.inj h
    exact updateModeParam_inv hr hq hcalm
  | frame f =>
    obtain ⟨⟨t, ok⟩, ht, h⟩ := bind_eq_some_iff.1 h
    obtain ⟨⟨q, info'⟩, hstart, h⟩ := bind_eq_some_iff.1 h
    obtain ⟨u, hend, h⟩ := bind_eq_some_iff.1 h
    obtain rfl := some.inj h
    cases hfps : f.script.dropByFps with
    | true =>
      rw [tryProcNormalTask, hfps, if_pos rfl] at ht
      obtain ⟨rfl, -⟩ := Prod.mk.inj (some.inj ht)
      obtain ⟨rfl, -⟩ := Prod.mk.inj (some.inj hstart)
      obtain rfl := some.inj hend
      exact hr
    | false =>
      obtain ⟨hplain, hfrm, hfits⟩ :=
        hcalm.resolve_left (by rw [hfps]; exact Bool.false_ne_true)
      obtain ⟨hstarts, hends⟩ := plain_calls ht hfps hplain
      have hbits := hfits t ok ht t.bitReal (by rw [hends]; exact List.mem_singleton_self _)
      dsimp only at hstart hend ⊢
      rw [hstarts] at hstart
      rw [hends] at hend ⊢
      obtain ⟨x, hx, hstart⟩ := bind_eq_some_iff.1 hstart
      obtain rfl := some.inj hstart
      obtain ⟨u', hu, hend⟩ := bind_eq_some_iff.1 hend
      obtain rfl := some.inj hend
      exact frame_inv hr hfrm hx hu rfl hbits

/-- The sums are right when a frame has started. -/
theorem bitsModelPreset_summed {h : ℕ → ℤ} {w : Window}
    (hp : (p.data w).Holds h) (hq : bitsModelPreset p info = some q) : (q.data w).Summed := by
  rw [(bitsModelPreset_spec hq).2 w]
  cases hstart : startUpdate info w with
  | none =>
    cases startValue info w with
    | none => exact hp.summed
    | some t => exact hp.summed.preset t
  | some v =>
    have hnone : startValue info w = none := by
      cases w with
      | iRefreshBit | madi => rfl
      | _ => exact absurd hstart (some_ne_none v).symm
    rw [hnone]
    exact (hp.update v).summed

/-- In a run of frames that are encoded by the hardware, neither dropped nor replaced, and no
    intra refresh frames, every window has the values of the last frames. -/
theorem windows_hold {cfg : RcCfg} {c : WindowCfg} (hc : (RcOp.init cfg c).Calm) {r : RcRun}
    (hr : ((rateRuns cfg c).guarded fun _ op _ => op.Calm).Reachable r)
    (hmode : r.ctx.usrCfg.mode ≠ .fixqp) : r.Law := by
  have hinv : r.Inv := by
    refine hr.invariant ?_ ?_
    · rintro ⟨ctx, past⟩ ⟨p, hinit, hpast⟩
      obtain rfl : past = fun w _ => c.fill w := hpast
      exact rcModelV2Init_inv hinit hc
    · rintro _ _ _ _ ih ⟨hstep, hcalm⟩
      exact rcOp_inv ih hstep hcalm
  have hholds := fun w hw => (hinv hmode w hw).1
  exact {
    sum := fun w hw => (hholds w hw).summed.sum
    val := fun w hw => (hholds w hw).val
    getPreVal := fun w hw _ hk => (hholds w hw).getPreVal hk
    preset := fun _ _ hq w hw => (bitsModelPreset_summed (hholds w hw) hq).sum }

end

/-! ### Intra refresh frames -/

/-- Windows of two values, also for the intra refresh frames. -/
def twoWindows : WindowCfg :=
  { size := fun _ => 2, value := fun _ => 0, scales := { pSumbits := 100 } }

/-- Two frames of a group are intra refresh frames. -/
def twoRefresh : RcCfg := { refreshLen := 2 }

/-- A frame of 50 bytes, with a target of 300 bits. -/
def fiftyBytes (frm : EncFrmStatus) : FrameData :=
  { script := { normal := { bytes := 50 } }, frm, plan := { bitTarget := 300 } }

/-- The rate model before the first frame. -/
def firstRun : RcRun :=
  { ctx :=
      { twoWindows.scales with
        usrCfg := twoRefresh
        data := fun w =>
          (twoWindows.window twoRefresh w).getD { size := 0, val := fun _ => 0 } }
    past := fun _ _ => 0 }

theorem firstRun_init {A : RcOp → Prop} :
    ((rateRuns twoRefresh twoWindows).guarded fun _ op _ => A op).Reachable firstRun := by
  refine .init ⟨{ data := fun _ => { size := 0, val := fun _ => 0 } }, ?_, rfl⟩
  rw [rcModelV2Init, if_neg (by decide), if_pos (by decide)]
  refine congrArg (fun data => some
    ({ twoWindows.scales with usrCfg := twoRefresh, data } : RcModelV2Ctx)) (funext fun w => ?_)
  exact if_pos (by cases w <;> decide)

/-- A P frame. -/
theorem windows_hold_frame :
    ∃ r, (RcOp.frame (fiftyBytes {})).apply firstRun = some r ∧ r.past .pBit 0 = 400 ∧
      r.Law := by
  have hplain : (fiftyBytes {}).script.Plain :=
    ⟨rfl, fun hf => absurd hf.2.1 (by decide), rfl, fun h => absurd h (by decide),
      fun p hp => absurd hp List.not_mem_nil⟩
  have hcalm : (RcOp.frame (fiftyBytes {})).Calm := by
    refine .inr ⟨hplain, rfl, fun t ok ht bits hbits => ?_⟩
    obtain ⟨rfl, -⟩ := Prod.mk.inj (some.inj ht)
    obtain rfl := List.mem_singleton.1 hbits
    decide
  have hc : (RcOp.init twoRefresh twoWindows).Calm := by
    refine fun w _ => ⟨?_, fun v hv => absurd hv (some_ne_none v).symm⟩
    cases w <;> exact ⟨by decide, by decide⟩
  obtain ⟨r, hr⟩ : ∃ r, (RcOp.frame (fiftyBytes {})).apply firstRun = some r := ⟨_, rfl⟩
  refine ⟨r, hr, ?_, windows_hold hc (firstRun_init.step ⟨hr, hcalm⟩) ?_⟩
  · obtain rfl := some.inj hr
    rfl
  · obtain rfl := some.inj hr
    exact fun h => RcMode.noConfusion h

/-- The target of an intra refresh frame, behind an I frame and a P frame, stays in the window,
    before its bits. -/
theorem refresh_target_kept :
    ¬∀ cfg c r, (rateRuns cfg c).Reachable r → r.ctx.usrCfg.mode ≠ .fixqp → r.Law := by
  intro h
  obtain ⟨r, hr⟩ :
      ∃ r, (RcOp.frame (fiftyBytes { isIntra := true })).apply firstRun = some r := ⟨_, rfl⟩
  obtain ⟨u, hu⟩ : ∃ u, (RcOp.frame (fiftyBytes {})).apply r = some u := by
    obtain rfl := some.inj hr
    exact ⟨_, rfl⟩
  obtain ⟨v, hv⟩ : ∃ v, (RcOp.frame (fiftyBytes { isIRefresh := true })).apply u = some v := by
    obtain rfl := some.inj hr
    obtain rfl := some.inj hu
    exact ⟨_, rfl⟩
  have hreach : (rateRuns twoRefresh twoWindows).Reachable v :=
    .step (.step (.step (.of_guarded (firstRun_init (A := fun _ => True))) hr) hu) hv
  obtain rfl := some.inj hr
  obtain rfl := some.inj hu
  obtain rfl := some.inj hv
  have hback := (h _ _ _ hreach (fun h => RcMode.noConfusion h)).getPreVal .iRefreshBit
    (by decide) 1 (by decide)
  exact absurd hback (by decide)

end Libmpp.Enc
