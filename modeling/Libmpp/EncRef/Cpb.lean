import Libmpp.EncRef.Status

/-!
# The virtual coded picture buffer

The tables of `mpp_enc_refs.c` and the operations on them. The buffer has
`MAX_CPB_FRM = 32` slots: the short-term frames in slots `0 ~ 15`, the most
recent first, and the long-term frames in slots `16 ~ 31`. Beside it, a
reference can be looked up by mode (`modeRefs`), by temporal id (`stTidRefs`)
and by long-term index (`ltIdxRefs`); all of them are copies, updated one by
one when a frame is stored (`storeRefToCpb`).

A read outside an array gives `none`.
-/

namespace Libmpp.EncRef

/-- `MAX_CPB_ST_FRM` -/
abbrev maxCpbStFrm : ℕ := 16

/-- `MAX_CPB_LT_FRM`, also `MAX_CPB_LT_IDX` -/
abbrev maxCpbLtFrm : ℕ := 16

/-- `MAX_CPB_TID_FRM` -/
abbrev maxCpbTidFrm : ℕ := 16

/-- `MAX_CPB_FRM` -/
abbrev maxCpbFrm : ℕ := 32

/-- The counter of a long-term entry. -/
structure RefsCnt where
  delay : ℤ
  delayCnt : ℤ
  len : ℤ
  cnt : ℤ
  idx : ℤ
  ltIdx : ℤ
  tid : ℤ
  refMode : MppEncRefMode
  refArg : ℤ
  deriving DecidableEq, Repr

instance : Zero RefsCnt where
  zero :=
    { delay := 0, delayCnt := 0, len := 0, cnt := 0, idx := 0, ltIdx := 0, tid := 0,
      refMode := .toPrevRefFrm, refArg := 0 }

/-- The virtual coded picture buffer. Of `list0` only the first frame is written. -/
structure EncVirtualCpb where
  info : MppEncCpbInfo
  cpbRefs : Vector EncFrmStatus maxCpbFrm
  modeRefs : Vector EncFrmStatus maxCpbFrm
  stTidRefs : Vector EncFrmStatus maxCpbTidFrm
  ltIdxRefs : Vector EncFrmStatus maxCpbLtFrm
  ltCnter : Vector RefsCnt maxCpbLtFrm
  list0 : EncFrmStatus
  /-- overall frame index -/
  frmIdx : ℕ
  /-- sequence index in one gop -/
  seqIdx : ℕ
  seqCnt : ℤ
  stCfgPos : ℕ
  stCfgRepeatPos : ℕ
  deriving DecidableEq, Repr

/-- The zeroed buffer. -/
instance : Zero EncVirtualCpb where
  zero :=
    { info := 0, cpbRefs := .replicate _ 0, modeRefs := .replicate _ 0,
      stTidRefs := .replicate _ 0, ltIdxRefs := .replicate _ 0, ltCnter := .replicate _ 0,
      list0 := 0, frmIdx := 0, seqIdx := 0, seqCnt := 0, stCfgPos := 0, stCfgRepeatPos := 0 }

variable (cpb : EncVirtualCpb)

/-- Empty all tables and restart the gop. -/
def cleanupCpbRefs : EncVirtualCpb :=
  { cpb with
    cpbRefs := .replicate _ 0
    modeRefs := .replicate _ 0
    stTidRefs := .replicate _ 0
    ltIdxRefs := .replicate _ 0
    list0 := 0
    seqIdx := 0
    seqCnt := cpb.seqCnt + 1
    stCfgPos := 0
    stCfgRepeatPos := 0
    ltCnter := cpb.ltCnter.map fun c => { c with delayCnt := c.delay, cnt := 0, idx := 0 } }

/-- The status of the frame `seqIdx` coded by the short-term entry `stCfg`. -/
def setStCfgToFrm (seqIdx : ℕ) (stCfg : MppEncRefStFrmCfg) : EncFrmStatus :=
  { (0 : EncFrmStatus) with
    seqIdx := truncTo _ seqIdx
    valid := true
    isIdr := seqIdx = 0
    isIntra := seqIdx = 0
    isNonRef := lowBit stCfg.isNonRef
    isLtRef := false
    temporalId := truncTo _ stCfg.temporalId
    refMode := stCfg.refMode
    refArg := .ofInt stCfg.refArg }

/-- Turn `frm` into the long-term frame of the counter `ltCfg`. -/
def setLtCfgToFrm (frm : EncFrmStatus) (ltCfg : RefsCnt) : EncFrmStatus :=
  let frm := { frm with
    isNonRef := false
    isLtRef := true
    temporalId := truncTo _ ltCfg.tid
    ltIdx := truncTo _ ltCfg.ltIdx }
  if ltCfg.refMode ≠ .toStRefSetup then
    { frm with refMode := ltCfg.refMode, refArg := .ofInt ltCfg.refArg }
  else frm

/-- One round of a long-term counter: the counter afterwards, the frame it may
    have claimed, and whether the frame is claimed. -/
def ltCfgStep (ltCfg : RefsCnt) (frm : EncFrmStatus) (setToLt : Bool) :
    RefsCnt × EncFrmStatus × Bool :=
  if ltCfg.delayCnt ≠ 0 then
    ({ ltCfg with delayCnt := ltCfg.delayCnt - 1 }, frm, setToLt)
  else
    let (frm, setToLt) :=
      if !setToLt ∧ ltCfg.cnt = 0 then (setLtCfgToFrm frm ltCfg, true) else (frm, setToLt)
    let ltCfg := { ltCfg with cnt := ltCfg.cnt + 1 }
    if ltCfg.cnt ≥ ltCfg.len then
      if ltCfg.len ≠ 0 then
        -- when there is loop len loop lt_cfg
        ({ ltCfg with cnt := 0, idx := ltCfg.idx + 1 }, frm, setToLt)
      else
        -- else just set lt_cfg once
        ({ ltCfg with cnt := 1, idx := 1 }, frm, setToLt)
    else (ltCfg, frm, setToLt)

/-- The round of counter `i`, when it is one of the first `cnt`. -/
def ltCfgRound (cnt : ℕ) (s : Vector RefsCnt maxCpbLtFrm × EncFrmStatus × Bool)
    (i : Fin maxCpbLtFrm) : Vector RefsCnt maxCpbLtFrm × EncFrmStatus × Bool :=
  let (ltCnter, frm, setToLt) := s
  if i < cnt then
    let (c, frm, setToLt) := ltCfgStep (ltCnter.get i) frm setToLt
    (ltCnter.set i c, frm, setToLt)
  else s

/-- The first `cnt` long-term counters, one round each, in order. -/
def ltCfgLoop (cnt : ℕ) (ltCnter : Vector RefsCnt maxCpbLtFrm) (frm : EncFrmStatus) :
    Vector RefsCnt maxCpbLtFrm × EncFrmStatus :=
  let (ltCnter, frm, _) := (List.finRange maxCpbLtFrm).foldl (ltCfgRound cnt) (ltCnter, frm, false)
  (ltCnter, frm)

/-- Entry `arg` of a table, `none` when `arg` lies outside it. -/
def tableRef {n : ℕ} (refs : Vector EncFrmStatus n) (arg : ℤ) : Option EncFrmStatus :=
  if 0 ≤ arg then refs[arg.toNat]? else none

/-- The frame `frm` refers to: `some none` stands for no reference at all. The
    entry found may be an invalid one. -/
def getRefFromCpb (frm : EncFrmStatus) : Option (Option EncFrmStatus) :=
  if frm.isIdr then some none else
  match frm.refMode with
  | .toPrevRefFrm | .toPrevStRef | .toPrevLtRef | .toPrevIntra =>
    some (some (cpb.modeRefs.get frm.refMode.idx))
  | .toTemporalLayer => (tableRef cpb.stTidRefs frm.refArg.toInt).map some
  | .toLtRefIdx => (tableRef cpb.ltIdxRefs frm.refArg.toInt).map some
  | .toStPrevNRef => (tableRef cpb.cpbRefs frm.refArg.toInt).map some
  | _ => some none

/-- The slot of long-term index `ltIdx`. -/
def ltSlot (ltIdx : Fin 16) : Option (Fin maxCpbLtFrm) :=
  (List.finRange maxCpbLtFrm).find? fun i =>
    (cpb.cpbRefs.get (i.natAdd maxCpbStFrm)).valid &&
      (cpb.cpbRefs.get (i.natAdd maxCpbStFrm)).ltIdx == ltIdx

/-- The slot of the short-term frame `seqIdx`. -/
def stSlot (seqIdx : Fin 65536) : Option (Fin maxCpbStFrm) :=
  (List.finRange maxCpbStFrm).find? fun i =>
    (cpb.cpbRefs.get (i.castAdd maxCpbLtFrm)).valid &&
      (cpb.cpbRefs.get (i.castAdd maxCpbLtFrm)).seqIdx == seqIdx

/-- The slot holding `frm`, `-1` if there is none. A long-term frame is looked
    up by its index alone. -/
def checkRefCpbPos (frm : EncFrmStatus) : ℤ :=
  if !frm.valid || frm.isNonRef then -1
  else if frm.isLtRef then
    match ltSlot cpb frm.ltIdx with
    | some i => i + maxCpbStFrm
    | none => -1
  else
    match stSlot cpb frm.seqIdx with
    | some i => i
    | none => -1

/-- The frames written to a snapshot: the long-term frames, then the short-term
    frames as far as the buffer size goes. -/
def saveCpbStatus : Option (List EncFrmStatus) := do
  let lt ← (List.range cpb.info.maxLtCnt.toNat).mapM fun i => cpb.cpbRefs[maxCpbStFrm + i]?
  let refs := lt.filter EncFrmStatus.isLt
  let refCnt : ℤ := refs.length
  if refCnt < cpb.info.dpbSize then
    let maxStCnt :=
      if cpb.info.maxStCnt < cpb.info.dpbSize - refCnt then cpb.info.dpbSize - refCnt
      else cpb.info.maxStCnt
    let st ← (List.range maxStCnt.toNat).mapM fun i => cpb.cpbRefs[i]?
    some (refs ++ st.filter EncFrmStatus.isSt)
  else
    some refs

/-- A snapshot array with `refs` written to it from the front. There is no check
    in the source: more frames than it has room for are written past its end. -/
def fillSnapshot (refs : List EncFrmStatus) : Option (Vector EncFrmStatus maxCpbRefs) :=
  if refs.length ≤ maxCpbRefs then some (.ofFn fun i => refs[i]?.getD 0) else none

/-- The snapshot of the buffer. -/
def cpbSnapshot : Option (Vector EncFrmStatus maxCpbRefs) :=
  saveCpbStatus cpb >>= fillSnapshot

/-- The long-term slot that takes a frame with index `ltIdx`: the first one that
    is free or holds the index. -/
def ltStoreSlot (cpbRefs : Vector EncFrmStatus maxCpbFrm) (ltIdx : Fin 16) :
    Option (Fin maxCpbLtFrm) :=
  (List.finRange maxCpbLtFrm).find? fun i =>
    !(cpbRefs.get (i.natAdd maxCpbStFrm)).valid ||
      (cpbRefs.get (i.natAdd maxCpbStFrm)).ltIdx == ltIdx

/-- The short-term slots with `frm` shifted in; the last short-term slot is lost. -/
def shiftSt (cpbRefs : Vector EncFrmStatus maxCpbFrm) (frm : EncFrmStatus) :
    Vector EncFrmStatus maxCpbFrm :=
  .ofFn fun i =>
    if i.val = 0 then frm
    else if i.val < maxCpbStFrm then cpbRefs.get ⟨i.val - 1, by omega⟩
    else cpbRefs.get i

/-- Store a coded frame in the tables. -/
def storeRefToCpb (frm : EncFrmStatus) : EncVirtualCpb :=
  -- non-ref do not save to cpb
  if frm.isNonRef then cpb else
  let cpb := if frm.isIntra then
      { cpb with modeRefs := cpb.modeRefs.set MppEncRefMode.toPrevIntra.idx frm }
    else cpb
  if frm.isLtRef then
    let cpb := { cpb with
      ltIdxRefs := cpb.ltIdxRefs.set frm.ltIdx frm
      stTidRefs := cpb.stTidRefs.set frm.temporalId frm
      modeRefs := (cpb.modeRefs.set MppEncRefMode.toPrevRefFrm.idx frm).set
        MppEncRefMode.toPrevLtRef.idx frm }
    -- find same lt_idx and replace
    match ltStoreSlot cpb.cpbRefs frm.ltIdx with
    | some i => { cpb with cpbRefs := cpb.cpbRefs.set (i.natAdd maxCpbStFrm) frm }
    | none => cpb
  else
    -- do normal st sliding window
    { cpb with
      stTidRefs := cpb.stTidRefs.set frm.temporalId frm
      modeRefs := (cpb.modeRefs.set MppEncRefMode.toPrevRefFrm.idx frm).set
        MppEncRefMode.toPrevStRef.idx frm
      cpbRefs := shiftSt cpb.cpbRefs frm }

end Libmpp.EncRef
