import Mathlib
import Libmpp.Lib.Widths

/-!
# Frame status and reference configuration

The records the encoder's reference manager works on.

* `EncFrmStatus` is the per-frame control word (`mpp_rc_defs.h`): in the source
  a union of bit fields with one 64-bit value, which is what the assignments
  through `.val` copy. The fields that no modelled function reads or writes are
  left out.
* `EncCpbStatus` is what the manager hands out for a frame: the frame itself, its
  reference, and the frames kept before and after it.
* `MppEncRefLtFrmCfg` and `MppEncRefStFrmCfg` are the entries of a reference
  configuration (`rk_venc_ref.h`), `MppEncRefCfgImpl` the configuration.

An assignment to a bit field keeps the low bits only (`truncTo`, `lowBit`).
-/

namespace Libmpp.EncRef

/-- The value a bit field with `n` values takes when `x` is assigned to it. -/
def truncTo (n : ℕ) [NeZero n] (x : ℤ) : Fin n := Fin.ofNat n (x % n).toNat

/-- The value a one-bit field takes when `x` is assigned to it. -/
def lowBit (x : ℤ) : Bool := x % 2 = 1

/-- How a frame selects its reference (`MppEncRefMode`), with the delimiters of
    the enumeration. -/
inductive MppEncRefMode
  | toPrevRefFrm
  | toPrevStRef
  | toPrevLtRef
  | toPrevIntra
  | toTemporalLayer
  | toLtRefIdx
  | toStPrevNRef
  | globalButt
  | lt
  | toStRefSetup
  | ltButt
  | st
  | toLtRefSetup
  | stButt
  deriving DecidableEq, Repr, Inhabited

namespace MppEncRefMode

/-- The numeric value of a mode; it indexes `mode_refs`. -/
def idx : MppEncRefMode → Fin 32
  | toPrevRefFrm => 0
  | toPrevStRef => 1
  | toPrevLtRef => 2
  | toPrevIntra => 3
  | toTemporalLayer => 4
  | toLtRefIdx => 5
  | toStPrevNRef => 6
  | globalButt => 7
  | lt => 0x18
  | toStRefSetup => 0x19
  | ltButt => 0x1a
  | st => 0x1c
  | toLtRefSetup => 0x1d
  | stButt => 0x1e

/-- `REF_MODE_IS_GLOBAL` -/
def isGlobal (mode : MppEncRefMode) : Bool := toPrevRefFrm.idx ≤ mode.idx && mode.idx < globalButt.idx

/-- `REF_MODE_IS_LT_MODE` -/
def isLtMode (mode : MppEncRefMode) : Bool := lt.idx < mode.idx && mode.idx < ltButt.idx

/-- `REF_MODE_IS_ST_MODE` -/
def isStMode (mode : MppEncRefMode) : Bool := st.idx < mode.idx && mode.idx < stButt.idx

end MppEncRefMode

/-- The control word of a frame. -/
@[ext]
structure EncFrmStatus where
  valid : Bool
  nonRecn : Bool
  savePass1 : Bool
  usePass1 : Bool
  isIntra : Bool
  isIdr : Bool
  isNonRef : Bool
  isLtRef : Bool
  ltIdx : Fin 16
  temporalId : Fin 16
  refMode : MppEncRefMode
  refArg : Int8
  forcePskipIsRef : Bool
  isIRefresh : Bool
  isIRecovery : Bool
  seqIdx : Fin 65536
  deriving DecidableEq, Repr

/-- The all-zero control word, as left by `memset`. -/
instance : Zero EncFrmStatus where
  zero :=
    { valid := false, nonRecn := false, savePass1 := false, usePass1 := false, isIntra := false,
      isIdr := false, isNonRef := false, isLtRef := false, ltIdx := 0, temporalId := 0,
      refMode := .toPrevRefFrm, refArg := 0, forcePskipIsRef := false, isIRefresh := false,
      isIRecovery := false, seqIdx := 0 }

instance : Inhabited EncFrmStatus := ⟨0⟩

/-- A frame held as a short-term reference. -/
def EncFrmStatus.isSt (frm : EncFrmStatus) : Bool := frm.valid && !frm.isNonRef && !frm.isLtRef

/-- A frame held as a long-term reference. -/
def EncFrmStatus.isLt (frm : EncFrmStatus) : Bool := frm.valid && !frm.isNonRef && frm.isLtRef

theorem isSt_of {frm : EncFrmStatus} (h : frm.isSt) :
    frm.isNonRef = false ∧ frm.isLtRef = false := by
  simp only [EncFrmStatus.isSt, Bool.and_eq_true, Bool.not_eq_true'] at h
  exact ⟨h.1.2, h.2⟩

theorem isLt_of {frm : EncFrmStatus} (h : frm.isLt) : frm.isNonRef = false ∧ frm.isLtRef := by
  simp only [EncFrmStatus.isLt, Bool.and_eq_true, Bool.not_eq_true'] at h
  exact ⟨h.1.2, h.2⟩

/-- `MAX_CPB_REFS`: the frames a snapshot has room for. -/
abbrev maxCpbRefs : ℕ := 8

/-- The status of the coded picture buffer around one frame. -/
structure EncCpbStatus where
  curr : EncFrmStatus
  refr : EncFrmStatus
  /-- The frames kept before the frame is encoded. -/
  init : Vector EncFrmStatus maxCpbRefs
  /-- The frames kept after it. -/
  final : Vector EncFrmStatus maxCpbRefs
  deriving DecidableEq, Repr

instance : Inhabited EncCpbStatus :=
  ⟨{ curr := 0, refr := 0, init := .replicate _ 0, final := .replicate _ 0 }⟩

/-- A long-term entry of a reference configuration. -/
structure MppEncRefLtFrmCfg where
  ltIdx : ℤ
  temporalId : ℤ
  refMode : MppEncRefMode
  refArg : ℤ
  ltGap : ℤ
  ltDelay : ℤ
  deriving DecidableEq, Repr

/-- A short-term entry of a reference configuration. -/
structure MppEncRefStFrmCfg where
  isNonRef : ℤ
  temporalId : ℤ
  refMode : MppEncRefMode
  refArg : ℤ
  repeat' : ℤ
  deriving DecidableEq, Repr

/-- What the dry run finds out about a configuration. -/
structure MppEncCpbInfo where
  dpbSize : ℤ
  maxLtCnt : ℤ
  maxStCnt : ℤ
  maxLtIdx : ℤ
  maxStTid : ℤ
  ltGop : ℤ
  stGop : ℤ
  deriving DecidableEq, Repr

instance : Zero MppEncCpbInfo where
  zero :=
    { dpbSize := 0, maxLtCnt := 0, maxStCnt := 0, maxLtIdx := 0, maxStTid := 0, ltGop := 0,
      stGop := 0 }

/-- A reference configuration. The source counts the entries of the two lists
    in `lt_cfg_cnt` and `st_cfg_cnt`. -/
structure MppEncRefCfgImpl where
  ready : Bool
  keepCpb : Bool
  maxTlayers : ℤ
  ltCfg : List MppEncRefLtFrmCfg
  stCfg : List MppEncRefStFrmCfg
  cpbInfo : MppEncCpbInfo
  deriving DecidableEq, Repr

/-- The built-in configuration: every frame refers to the previous one. -/
def mppEncRefDefault : MppEncRefCfgImpl where
  ready := true
  keepCpb := false
  maxTlayers := 1
  ltCfg := []
  stCfg :=
    [{ isNonRef := 0, temporalId := 0, refMode := .toPrevRefFrm, refArg := 0, repeat' := 0 }]
  cpbInfo :=
    { dpbSize := 1, maxLtCnt := 0, maxStCnt := 1, maxLtIdx := 0, maxStTid := 0, ltGop := 0,
      stGop := 0 }

end Libmpp.EncRef
