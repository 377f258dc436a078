import Libmpp.EncRef.Cpb

/-!
# The reference manager

`MppEncRefsImpl` and its operations (`mpp_enc_refs.c`), and the check of a
reference configuration (`mpp_enc_ref.c`), which runs the manager dry to find
the buffer size.

An operation returns `none` where the source has no defined behaviour: it reads
or writes outside an array, divides by zero, shifts by a negative amount or has
no configuration. The message of a failed `mpp_assert` stops nothing (it aborts
only in a debug setting), so asserts are not modelled.
-/

namespace Libmpp.EncRef

/-- `ENC_REFS_REF_CFG_CHANGED` -/
abbrev encRefsRefCfgChanged : UInt32 := 0x1

/-- `ENC_REFS_USR_CFG_CHANGED` -/
abbrev encRefsUsrCfgChanged : UInt32 := 0x2

/-- `ENC_REFS_IGOP_CHANGED` -/
abbrev encRefsIgopChanged : UInt32 := 0x4

/-- `ENC_FORCE_IDR` -/
abbrev encForceIdr : UInt32 := 0x1

/-- `ENC_FORCE_LT_REF_IDX` -/
abbrev encForceLtRefIdx : UInt32 := 0x4

/-- `ENC_FORCE_TEMPORAL_ID` -/
abbrev encForceTemporalId : UInt32 := 0x8

/-- `ENC_FORCE_REF_MODE` -/
abbrev encForceRefMode : UInt32 := 0x10

/-- `ENC_FORCE_PSKIP_IS_REF` -/
abbrev encForcePskipIsRef : UInt32 := 0x20

/-- `ENC_FORCE_PSKIP_NON_REF` -/
abbrev encForcePskipNonRef : UInt32 := 0x40

/-- What the user forces on the next frame. -/
structure MppEncRefFrmUsrCfg where
  forceFlag : UInt32
  forceLtIdx : ℤ
  forceTemporalId : ℤ
  forceRefMode : MppEncRefMode
  forceRefArg : ℤ
  deriving DecidableEq, Repr

instance : Zero MppEncRefFrmUsrCfg where
  zero :=
    { forceFlag := 0, forceLtIdx := 0, forceTemporalId := 0, forceRefMode := .toPrevRefFrm,
      forceRefArg := 0 }

/-- The flag `flag` is set. -/
def MppEncRefFrmUsrCfg.has (usrCfg : MppEncRefFrmUsrCfg) (flag : UInt32) : Prop :=
  usrCfg.forceFlag &&& flag ≠ 0
  deriving Decidable

/-- The flag `flag` is done with. -/
def MppEncRefFrmUsrCfg.clear (usrCfg : MppEncRefFrmUsrCfg) (flag : UInt32) : MppEncRefFrmUsrCfg :=
  { usrCfg with forceFlag := usrCfg.forceFlag &&& ~~~flag }

/-- The reference manager. -/
structure MppEncRefsImpl where
  changed : UInt32
  refCfg : Option MppEncRefCfgImpl
  usrCfg : MppEncRefFrmUsrCfg
  igop : ℤ
  forceRecon : Bool
  refreshLength : UInt32
  hdrNeedUpdate : Bool
  cpb : EncVirtualCpb
  cpbStash : EncVirtualCpb
  deriving DecidableEq, Repr

/-- A manager fresh from `calloc`. -/
def mppEncRefsInit : MppEncRefsImpl where
  changed := 0
  refCfg := none
  usrCfg := 0
  igop := 0
  forceRecon := false
  refreshLength := 0
  hdrNeedUpdate := false
  cpb := 0
  cpbStash := 0

/-! ## Configuration -/

/-- Set up the counter of a long-term entry; what it has counted is kept. -/
def setupLtCnt (ltCnt : RefsCnt) (ltCfg : MppEncRefLtFrmCfg) : RefsCnt :=
  { ltCnt with
    delay := ltCfg.ltDelay
    delayCnt := ltCfg.ltDelay
    len := ltCfg.ltGap
    ltIdx := ltCfg.ltIdx
    tid := ltCfg.temporalId
    refMode := ltCfg.refMode
    refArg := ltCfg.refArg }

variable (p : MppEncRefsImpl)

/-- Install a configuration; without one, the default. -/
def mppEncRefsSetCfg (refCfg : Option MppEncRefCfgImpl) : Option MppEncRefsImpl :=
  let cfg := refCfg.getD mppEncRefDefault
  let cpb := if cfg.keepCpb then p.cpb else 0
  -- the loop over the entries writes past `lt_cnter` when there are more
  if cfg.ltCfg.length ≤ maxCpbLtFrm then
    let ltCnter := Vector.ofFn fun i : Fin maxCpbLtFrm =>
      match cfg.ltCfg[i.val]? with
      | some ltCfg => setupLtCnt (cpb.ltCnter.get i) ltCfg
      | none => cpb.ltCnter.get i
    let grown := cpb.info.dpbSize ≠ 0 ∧ cpb.info.dpbSize < cfg.cpbInfo.dpbSize
    some { p with
      refCfg := some cfg
      changed := p.changed ||| encRefsRefCfgChanged
      hdrNeedUpdate := !cfg.keepCpb || grown
      cpb := { cpb with ltCnter, info := cfg.cpbInfo } }
  else none

/-- Hand over what the user forces on the next frame. -/
def mppEncRefsSetUsrCfg (cfg : MppEncRefFrmUsrCfg) : MppEncRefsImpl :=
  { p with
    usrCfg := cfg
    changed := if cfg.forceFlag ≠ 0 then p.changed ||| encRefsUsrCfgChanged else p.changed }

/-- Set the interval of intra frames. -/
def mppEncRefsSetRcIgop (igop : ℤ) : MppEncRefsImpl :=
  if p.igop ≠ igop then { p with igop, changed := p.changed ||| encRefsIgopChanged } else p

/-- Set the length of an intra refresh, at most the interval of intra frames. -/
def mppEncRefsSetRefreshLength (len : ℤ) : MppEncRefsImpl :=
  if len < p.igop then { p with refreshLength := .ofInt len }
  else { p with refreshLength := .ofInt p.igop }

def mppEncRefsForceRecon (forceRecon : Bool) : MppEncRefsImpl :=
  { p with forceRecon }

def mppEncRefsStash : MppEncRefsImpl := { p with cpbStash := p.cpb }

def mppEncRefsRollback : MppEncRefsImpl := { p with cpb := p.cpbStash }

/-! ## Frames -/

/-- Mark a frame inside an intra refresh, or at its start. -/
def setFrmRefreshFlag (frm : EncFrmStatus) : Option EncFrmStatus :=
  if p.refreshLength ≠ 0 then
    if p.igop = 0 then none else
    let pos := (frm.seqIdx.val : ℤ).tmod p.igop
    some { frm with
      isIRefresh := UInt32.ofInt pos < p.refreshLength ∧ p.cpb.seqCnt > 1
      isIRecovery := pos = 0 ∧ p.cpb.seqCnt > 1 }
  else some { frm with isIRefresh := false }

/-- Step 1 of a frame: restart the gop when its interval is over, when the
    interval has changed or when the user asks for it. -/
def updateGop : MppEncRefsImpl :=
  let cleanup := p.changed &&& encRefsIgopChanged ≠ 0
  let gopEnd := p.igop ≠ 0 ∧ (p.cpb.seqIdx : ℤ) ≥ p.igop
  let (p, cleanup) :=
    if gopEnd then
      if p.refreshLength ≠ 0 then
        ({ p with cpb := { p.cpb with seqCnt := (p.cpb.seqIdx : ℤ).tdiv p.igop + 1 } },
          decide cleanup)
      else (p, true)
    else (p, decide cleanup)
  let (p, cleanup) :=
    if p.usrCfg.has encForceIdr then
      ({ p with usrCfg := p.usrCfg.clear encForceIdr, cpb := { p.cpb with seqCnt := 0 } }, true)
    else (p, cleanup)
  let p :=
    if cleanup then { p with cpb := cleanupCpbRefs p.cpb }
    else if p.changed &&& encRefsRefCfgChanged ≠ 0 then
      { p with cpb := { p.cpb with stCfgPos := 0, stCfgRepeatPos := 0 } }
    else p
  { p with changed := 0 }

/-- The short-term entry for the next frame. -/
def getCpbStCfgPos (cpb : EncVirtualCpb) (cfg : MppEncRefCfgImpl) : ℕ :=
  -- NOTE: second loop will start from 1
  if cpb.stCfgPos ≥ cfg.stCfg.length then if cfg.stCfg.length > 1 then 1 else 0
  else cpb.stCfgPos

/-- The frame is forced to be a long-term reference. -/
def forceLtRefIdx (frm : EncFrmStatus) : MppEncRefsImpl × EncFrmStatus :=
  if p.usrCfg.has encForceLtRefIdx then
    let frm := { frm with
      isNonRef := false
      isLtRef := true
      ltIdx := truncTo _ p.usrCfg.forceLtIdx }
    -- can not set IDR to ltr with non-zero index
    let frm := if frm.isIdr ∧ frm.ltIdx ≠ 0 then { frm with ltIdx := 0 } else frm
    -- lt_ref will be forced to tid 0, reset st_cfg to next loop
    ({ p with
        usrCfg := p.usrCfg.clear encForceLtRefIdx
        cpb := { p.cpb with stCfgRepeatPos := 0, stCfgPos := 0 } },
      { frm with temporalId := 0 })
  else (p, frm)

/-- The temporal id of the frame is forced, unless it is too high or the frame is
    IDR or a long-term reference. -/
def forceTemporalId (p : MppEncRefsImpl) (cfg : MppEncRefCfgImpl) (frm : EncFrmStatus) :
    MppEncRefsImpl × EncFrmStatus :=
  if p.usrCfg.has encForceTemporalId then
    ({ p with usrCfg := p.usrCfg.clear encForceTemporalId },
      if p.usrCfg.forceTemporalId ≥ cfg.maxTlayers ∨ frm.isIdr ∨ frm.isLtRef then frm
      else { frm with temporalId := truncTo _ p.usrCfg.forceTemporalId })
  else (p, frm)

/-- The reference mode of the frame is forced. -/
def forceRefMode (p : MppEncRefsImpl) (frm : EncFrmStatus) : MppEncRefsImpl × EncFrmStatus :=
  if p.usrCfg.has encForceRefMode then
    ({ p with usrCfg := p.usrCfg.clear encForceRefMode },
      { frm with refMode := p.usrCfg.forceRefMode, refArg := .ofInt p.usrCfg.forceRefArg })
  else (p, frm)

/-- The frame is forced not to be a reference. -/
def forcePskipNonRef (frm : EncFrmStatus) : MppEncRefsImpl × EncFrmStatus :=
  if p.usrCfg.has encForcePskipNonRef then
    ({ p with usrCfg := p.usrCfg.clear encForcePskipNonRef }, { frm with isNonRef := true })
  else (p, frm)

/-- The frame is forced to be a skipped one that is a reference. -/
def forcePskipIsRef (p : MppEncRefsImpl) (frm : EncFrmStatus) : MppEncRefsImpl × EncFrmStatus :=
  if p.usrCfg.has encForcePskipIsRef then
    ({ p with usrCfg := p.usrCfg.clear encForcePskipIsRef }, { frm with forcePskipIsRef := true })
  else (p, frm)

/-- Step 4 of a frame: what the user forces on it. -/
def forceFrm (cfg : MppEncRefCfgImpl) (frm : EncFrmStatus) : MppEncRefsImpl × EncFrmStatus :=
  let (p, frm) := forceLtRefIdx p frm
  let (p, frm) := forceTemporalId p cfg frm
  let (p, frm) := forceRefMode p frm
  let (p, frm) := forcePskipNonRef p frm
  forcePskipIsRef p frm

/-- Step 1 of a frame: the gop is restarted if need be, the frame counted and its
    short-term entry chosen. -/
def beginFrm (cfg : MppEncRefCfgImpl) : MppEncRefsImpl :=
  let p := updateGop p
  { p with cpb := { p.cpb with
      frmIdx := p.cpb.frmIdx + 1
      stCfgPos := getCpbStCfgPos p.cpb cfg } }

/-- Step 2 of a frame: its status by its short-term entry. -/
def stCfgFrm (stCfg : MppEncRefStFrmCfg) : Option (MppEncRefsImpl × EncFrmStatus) :=
  let frm := setStCfgToFrm p.cpb.seqIdx stCfg
  let p := { p with cpb := { p.cpb with seqIdx := p.cpb.seqIdx + 1 } }
  (setFrmRefreshFlag p frm).map fun frm => (p, frm)

/-- Step 3 of a frame: its status by the long-term entries. -/
def ltCfgFrm (cfg : MppEncRefCfgImpl) (frm : EncFrmStatus) : MppEncRefsImpl × EncFrmStatus :=
  let (ltCnter, frm) := ltCfgLoop cfg.ltCfg.length p.cpb.ltCnter frm
  ({ p with cpb := { p.cpb with ltCnter } }, frm)

/-- Update the short-term position for the next frame. -/
def nextStCfg (cpb : EncVirtualCpb) (stCfg : MppEncRefStFrmCfg) : EncVirtualCpb :=
  let cpb := { cpb with stCfgRepeatPos := cpb.stCfgRepeatPos + 1 }
  if cpb.stCfgRepeatPos > stCfg.repeat' then
    { cpb with stCfgRepeatPos := 0, stCfgPos := cpb.stCfgPos + 1 }
  else cpb

/-- Steps 1 to 4 of a frame: its status, before its reference is looked up. -/
def getCpbFrm : Option (MppEncRefsImpl × EncFrmStatus) := do
  let cfg ← p.refCfg
  let p := beginFrm p cfg
  let stCfg ← cfg.stCfg[p.cpb.stCfgPos]?
  let (p, frm) ← stCfgFrm p stCfg
  let (p, frm) := ltCfgFrm p cfg frm
  -- step 4. process force flags and force ref_mode
  let (p, frm) := forceFrm p cfg frm
  let frm := { frm with nonRecn := (frm.isNonRef || p.igop = 1) && !p.forceRecon }
  some ({ p with cpb := nextStCfg p.cpb stCfg }, frm)

/-- The reference written to the status, and the buffer with the first frame of
    its list 0 updated. -/
def setRefr (cpb : EncVirtualCpb) (ref : Option EncFrmStatus) (refr : EncFrmStatus) :
    EncVirtualCpb × EncFrmStatus :=
  match ref with
  | some ref => ({ cpb with list0 := refr }, ref)
  | none => (cpb, 0)

/-- The status of the next frame. Of the status passed in, only the frame's pass
    flag and the reference are read. -/
def mppEncRefsGetCpb (status : EncCpbStatus) : Option (MppEncRefsImpl × EncCpbStatus) := do
  let (p, frm) ← getCpbFrm p
  -- step 4. try find ref by the ref_mode
  let ref ← getRefFromCpb p.cpb frm
  let (cpb, refr) := setRefr p.cpb ref status.refr
  -- step 5. check use previous pass one frame as input, generate cpb init
  let frm := if status.curr.savePass1 then { frm with usePass1 := true } else frm
  let init ← cpbSnapshot cpb
  -- step 6. store frame according to status
  let cpb := storeRefToCpb cpb frm
  -- step 7. generate cpb final
  let final ← cpbSnapshot cpb
  some ({ p with cpb }, { curr := frm, refr, init, final })

/-- The status of a first-pass frame, which is never stored. -/
def mppEncRefsGetCpbPass1 (status : EncCpbStatus) : Option (MppEncRefsImpl × EncCpbStatus) := do
  let frm := { status.curr with
    valid := true
    savePass1 := true
    isNonRef := true
    isLtRef := false
    temporalId := 0
    refMode := .toPrevRefFrm
    refArg := 0
    nonRecn := false
    seqIdx := truncTo _ p.cpb.seqIdx }
  let ref ← getRefFromCpb p.cpb frm
  let (cpb, refr) := setRefr p.cpb ref status.refr
  let init ← cpbSnapshot cpb
  let cpb := storeRefToCpb cpb frm
  let final ← cpbSnapshot cpb
  some ({ p with cpb }, { curr := frm, refr, init, final })

/-- Whether the next frame is expected to be intra. -/
def mppEncRefsNextFrmIsIntra : Bool :=
  let isIntra := decide (p.changed &&& encRefsIgopChanged ≠ 0) ||
    decide (p.igop ≠ 0 ∧ (p.cpb.seqIdx : ℤ) ≥ p.igop) || decide (p.usrCfg.has encForceIdr)
  if p.cpb.frmIdx = 0 then false else isIntra

/-! ## The dry run -/

/-- The buffer, the frame count and the used short-term size of a dry run. -/
structure DryrunState where
  cpb : EncVirtualCpb
  seqIdx : ℕ
  cpbStUsedSize : ℤ

/-- One frame of the dry run. -/
def dryrunFrm (ltCfgCnt : ℕ) (stCfg : MppEncRefStFrmCfg) (s : DryrunState) :
    Option DryrunState := do
  -- step 1. updated by st_cfg
  let frm := setStCfgToFrm s.seqIdx stCfg
  let frm ← setFrmRefreshFlag { p with cpb := s.cpb } frm
  -- step 2. updated by lt_cfg
  let (ltCnter, frm) := ltCfgLoop ltCfgCnt s.cpb.ltCnter frm
  let cpb := { s.cpb with ltCnter }
  -- step 3. try find ref by the ref_mode and update used cpb size
  let ref ← getRefFromCpb cpb frm
  let cpbStUsedSize :=
    match ref with
    | some ref =>
      let cpbPos := checkRefCpbPos cpb ref
      if cpbPos < maxCpbStFrm ∧ s.cpbStUsedSize < cpbPos + 1 then cpbPos + 1 else s.cpbStUsedSize
    | none => s.cpbStUsedSize
  -- step 4. store frame according to status
  some { cpb := storeRefToCpb cpb frm, seqIdx := s.seqIdx + 1, cpbStUsedSize }

/-- `n` frames of the same short-term entry. -/
def dryrunRepeat (p : MppEncRefsImpl) (ltCfgCnt : ℕ) (stCfg : MppEncRefStFrmCfg) :
    ℕ → DryrunState → Option DryrunState
  | 0, s => some s
  | n + 1, s => dryrunFrm p ltCfgCnt stCfg s >>= dryrunRepeat p ltCfgCnt stCfg n

/-- The short-term entry of step `stIdx`; the walk divides by their number. -/
def dryrunStCfg (cfg : MppEncRefCfgImpl) (stIdx : ℕ) : Option MppEncRefStFrmCfg :=
  if cfg.stCfg.length = 0 then none else cfg.stCfg[stIdx % cfg.stCfg.length]?

/-- The frames of the entries `stIdx` of a dry run. -/
def dryrunWalk (p : MppEncRefsImpl) (cfg : MppEncRefCfgImpl) :
    List ℕ → DryrunState → Option DryrunState
  | [], s => some s
  | stIdx :: l, s => do
    let stCfg ← dryrunStCfg cfg stIdx
    let n := if stCfg.repeat' ≠ 0 then stCfg.repeat' else 1
    dryrunRepeat p cfg.ltCfg.length stCfg n.toNat s >>= dryrunWalk p cfg l

/-- Walk through the configuration once to find the buffer size. -/
def mppEncRefsDryrun : Option MppEncRefsImpl := do
  let cfg ← p.refCfg
  if cfg.ready then
    let info := p.cpb.info
    some { p with
      cpb := { p.cpb with info := { info with dpbSize := info.maxLtCnt + info.maxStCnt } } }
  else
    let cpb := cleanupCpbRefs p.cpb
    let cfg := { cfg with maxTlayers := cpb.info.maxStTid + 1 }
    let walkLen := max cfg.ltCfg.length cfg.stCfg.length
    let s ← dryrunWalk p cfg (List.range walkLen) { cpb, seqIdx := 0, cpbStUsedSize := 0 }
    let cpb := cleanupCpbRefs s.cpb
    let maxStCnt := if s.cpbStUsedSize ≠ 0 then s.cpbStUsedSize else 1
    some { p with
      refCfg := some cfg
      cpb := { cpb with
        info := { cpb.info with maxStCnt, dpbSize := cpb.info.maxLtCnt + maxStCnt } } }

/-! ## The check of a configuration -/

/-- What the check collects from the long-term entries. -/
structure LtCheck where
  maxLtRefCnt : ℤ
  maxLtRefIdx : ℤ
  ltIdxUsedMask : UInt32
  ltDryrunLength : ℤ

/-- The bit of an index or a temporal id in a mask; a negative one is shifted by
    no defined amount. -/
def idxMask (idx : ℤ) : UInt32 := 1 <<< UInt32.ofInt idx

/-- A long-term entry is refused. -/
def LtCheck.refuses (s : LtCheck) (cfg : MppEncRefLtFrmCfg) : Prop :=
  cfg.ltIdx ≥ 16 ∨ s.ltIdxUsedMask &&& idxMask cfg.ltIdx ≠ 0 ∨ cfg.temporalId ≠ 0 ∨
    (!cfg.refMode.isGlobal ∧ !cfg.refMode.isLtMode)
  deriving Decidable

/-- A long-term entry is taken in. -/
def LtCheck.add (s : LtCheck) (cfg : MppEncRefLtFrmCfg) : LtCheck where
  maxLtRefCnt := s.maxLtRefCnt + 1
  maxLtRefIdx := max s.maxLtRefIdx cfg.ltIdx
  ltIdxUsedMask := s.ltIdxUsedMask ||| idxMask cfg.ltIdx
  ltDryrunLength :=
    if cfg.ltGap ≠ 0 ∧ cfg.ltGap + cfg.ltDelay > s.ltDryrunLength then cfg.ltGap + cfg.ltDelay
    else s.ltDryrunLength

/-- The check of the long-term entries: `some none` when one of them is refused. -/
def checkLtCfg : List MppEncRefLtFrmCfg → LtCheck → Option (Option LtCheck)
  | [], s => some (some s)
  | cfg :: l, s =>
    if cfg.ltIdx < 0 then none
    else if s.refuses cfg then some none
    else checkLtCfg l (s.add cfg)

/-- `MPP_ENC_MAX_TEMPORAL_LAYER_NUM` -/
abbrev mppEncMaxTemporalLayerNum : ℤ := 4

/-- What the check collects from the short-term entries. -/
structure StCheck where
  maxStRefCnt : ℤ
  maxStTid : ℤ
  stTidUsedMask : UInt32
  stDryrunLength : ℤ

/-- A short-term entry is refused; an entry at the head or the tail has to be a
    reference of temporal id `0`. -/
def stRefuses (onEnd : Prop) [Decidable onEnd] (cfg : MppEncRefStFrmCfg) : Prop :=
  cfg.temporalId > mppEncMaxTemporalLayerNum - 1 ∨
    (!cfg.refMode.isGlobal ∧ !cfg.refMode.isStMode) ∨
    (onEnd ∧ (cfg.isNonRef ≠ 0 ∨ cfg.temporalId > 0))
  deriving Decidable

/-- A short-term entry is taken in. -/
def StCheck.add (s : StCheck) (cfg : MppEncRefStFrmCfg) : StCheck :=
  let newTid := cfg.isNonRef = 0 ∧ s.stTidUsedMask &&& idxMask cfg.temporalId = 0
  { maxStRefCnt := if newTid then s.maxStRefCnt + 1 else s.maxStRefCnt
    maxStTid := max s.maxStTid cfg.temporalId
    stTidUsedMask :=
      if newTid then s.stTidUsedMask ||| idxMask cfg.temporalId else s.stTidUsedMask
    stDryrunLength := s.stDryrunLength + 1 + cfg.repeat' }

/-- The check of the short-term entries from position `pos` of `cnt` on: whether
    all of them are accepted, and the entries as the check leaves them, a negative
    repeat being set to zero. -/
def checkStCfg (cnt : ℕ) : ℕ → List MppEncRefStFrmCfg → StCheck →
    Option (Bool × List MppEncRefStFrmCfg × StCheck)
  | _, [], s => some (true, [], s)
  | pos, cfg :: l, s =>
    if cfg.temporalId < 0 then none else
    let cfg := { cfg with repeat' := max cfg.repeat' 0 }
    -- constrain on head and tail frame
    if stRefuses (pos = 0 ∨ pos + 1 = cnt) cfg then some (false, cfg :: l, s)
    else
      (checkStCfg cnt (pos + 1) l (s.add cfg)).map fun (ready, l, s) => (ready, cfg :: l, s)

/-- The check of a configuration: whether it is accepted, and the configuration
    as the check leaves it. -/
def mppEncRefCfgCheck (p : MppEncRefCfgImpl) : Option (Bool × MppEncRefCfgImpl) := do
  let lt ← checkLtCfg p.ltCfg
    { maxLtRefCnt := 0, maxLtRefIdx := 0, ltIdxUsedMask := 0, ltDryrunLength := 0 }
  match lt with
  | none => some (false, { p with ready := false })
  | some lt =>
    let (ready, stCfg, st) ← checkStCfg p.stCfg.length 0 p.stCfg
      { maxStRefCnt := 0, maxStTid := 0, stTidUsedMask := 0, stDryrunLength := 0 }
    if ready then
      let p := { p with
        stCfg
        cpbInfo :=
          { dpbSize := 0
            maxLtCnt := lt.maxLtRefCnt
            maxStCnt := st.maxStRefCnt
            maxLtIdx := lt.maxLtRefIdx
            maxStTid := st.maxStTid
            ltGop := lt.ltDryrunLength
            stGop := st.stDryrunLength - 1 } }
      let refs ← mppEncRefsSetCfg mppEncRefsInit (some p)
      let refs ← mppEncRefsDryrun refs
      let p ← refs.refCfg
      some (true, { p with ready := true, cpbInfo := refs.cpb.info })
    else
      some (false, { p with stCfg, ready := false })

end Libmpp.EncRef
