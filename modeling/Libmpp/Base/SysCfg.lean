import Mathlib.Data.Nat.Bitwise

/-!
# The buffer size of a decoder

`mpp_sys_dec_buf_chk_proc` (`mpp_sys_cfg.c`) makes strides and the size of a buffer from the
coding type, the format and the size of a picture, and the strides that the codec asks for.

What an operation on 32 bits gives when its value does not fit is a parameter (`Arith32`), so
that a result for all of these is one that does not depend on it. The coding types, the
formats and the SoCs are those that the function tells apart. `fmt_hdr` is left out, as the
function masks it away, and so is the first `aligned_pixel`, which nothing reads.
-/

namespace Libmpp.Base

/-- The operations of `RK_U32` and `RK_S32`, by the value that a result would have -/
structure Arith32 where
  u32 : ℕ → ℕ
  s32 : ℕ → ℕ
  u32_eq : ∀ x < 2 ^ 32, u32 x = x
  s32_eq : ∀ x < 2 ^ 31, s32 x = x

/-- Unbounded numbers. -/
def Arith32.exact : Arith32 := ⟨id, id, fun _ _ => rfl, fun _ _ => rfl⟩

inductive MppCodingType
  | unused
  | mpeg2
  | h263
  | mpeg4
  | avc
  | mjpeg
  | vp8
  | vp9
  | hevc
  | avsplus
  | avs
  | avs2
  | av1
  | other (val : ℕ)
  deriving DecidableEq, Repr

inductive RockchipSocType
  | rk3399
  | rk3568
  | rk3562
  | rk3528
  | rk3588
  | rk3576
  | rk3538
  | rk3572
  | other (val : ℕ)
  deriving DecidableEq, Repr

/-- `MppFrameFormat`. The others are packed, in so many bits each pixel. -/
inductive MppFrameFormat
  | yuv420sp
  | yuv420sp10bit
  | yuv420p
  | yuv420spVu
  | yuv422sp
  | yuv422sp10bit
  | yuv422p
  | yuv422spVu
  | yuv422Yuyv
  | yuv422Yvyu
  | yuv422Uyvy
  | yuv422Vyuy
  | yuv400
  | yuv440sp
  | yuv411sp
  | yuv444sp
  | yuv444p
  | yuv444sp10bit
  | rgb565
  | bgr565
  | rgb888
  | bgr888
  | other (bits : ℕ)
  deriving DecidableEq, Repr

/-- `MPP_FRAME_FBC_*` -/
inductive FbcMode
  | none
  | afbcV1
  | afbcV2
  | rkfbc
  deriving DecidableEq, Repr

/-- `MPP_FRAME_FMT_IS_AFBC` -/
def FbcMode.isAfbc : FbcMode → Bool
  | afbcV1 | afbcV2 => true
  | none | rkfbc => false

/-- The `depth` of a format -/
def MppFrameFormat.depth : MppFrameFormat → ℕ
  | yuv420sp10bit | yuv422sp10bit | yuv444sp10bit => 10
  | _ => 8

inductive SysCfgAlignType
  | align16
  | align64
  | align128
  | align256Odd
  | align128OddPlus64
  | lenDefault
  | len420
  | len422
  | len444
  | len422Avc
  | len420Av1
  | len422Av1
  deriving DecidableEq, Repr

/-- `MPP_ALIGN`, in `wrap` -/
def mppAlign (wrap : ℕ → ℕ) (x a : ℕ) : ℕ := wrap (x + a - 1) / a * a

section

variable (A : Arith32)

/-- `mpp_sys_cfg_align` -/
def mppSysCfgAlign (type : SysCfgAlignType) (val : ℕ) : ℕ :=
  match type with
  | .align16 => mppAlign A.u32 val 16
  | .align64 => mppAlign A.u32 val 64
  | .align128 => mppAlign A.u32 val 128
  | .align256Odd => mppAlign A.u32 val 256 ||| 256
  | .align128OddPlus64 =>
    let val := mppAlign A.u32 val 64
    if (val + 2 ^ 32 - 64) % 2 ^ 32 % 256 = 128 then val
    else A.u32 ((mppAlign A.u32 val 128 ||| 128) + 64)
  | .lenDefault => A.u32 (9 * mppAlign A.u32 val 16) / 5
  | .len420 | .len422 => A.u32 (2 * mppAlign A.u32 val 16)
  | .len444 => A.u32 (3 * mppAlign A.u32 val 16)
  | .len422Avc => A.u32 (5 * mppAlign A.u32 val 16) / 2
  | .len420Av1 => A.u32 (2 * mppAlign A.u32 val 128)
  | .len422Av1 => A.u32 (5 * mppAlign A.u32 val 64) / 2

/-- `get_afbc_min_size` -/
def getAfbcMinSize (width height bpp : ℕ) : ℕ :=
  let width := mppAlign A.s32 width 16
  let height := mppAlign A.s32 height 16
  let nBlocks := A.s32 (width * height) / 256
  let size := mppAlign A.s32 (A.s32 (nBlocks * 16)) 64
  A.s32 (size + A.s32 (nBlocks * mppAlign A.s32 (A.s32 (bpp * 256) / 8) 128))

end

/-- `MppSysDecBufChkCfg`. Of `fmt_codec`, `tile` is whether there are bits outside
    `MPP_FRAME_FMT_MASK`, as `MPP_FRAME_TILE_FLAG`. -/
structure MppSysDecBufChkCfg where
  type : MppCodingType
  fmtCodec : MppFrameFormat
  tile : Bool := false
  fmtFbc : FbcMode
  width : ℕ
  height : ℕ
  hStrideByByte : ℕ := 0
  vStride : ℕ := 0
  hStrideByPixel : ℕ := 0
  sizeTotal : ℕ := 0
  deriving DecidableEq, Repr

section

variable (A : Arith32) (soc : RockchipSocType)

/-! ## The FBC case -/

/-- The `ext_pix` of HEVC and AVC, of `lines` each -/
def extPix (cfg : MppSysDecBufChkCfg) (lines : ℕ) : ℕ :=
  if (soc = .rk3538 ∨ soc = .rk3572) ∧ cfg.fmtFbc.isAfbc then
    if cfg.vStride = cfg.height ∨ (cfg.vStride + 2 ^ 32 - cfg.height) % 2 ^ 32 < lines then 8 else 0
  else 0

/-- The `aligned_pixel` of the FBC case -/
def fbcPixel (cfg : MppSysDecBufChkCfg) : ℕ :=
  match cfg.type with
  | .hevc | .av1 | .avc | .avsplus | .avs | .avs2 | .vp9 => mppAlign A.u32 cfg.width 64
  | _ => mppAlign A.u32 cfg.width 16

/-- The `aligned_height` of the FBC case -/
def fbcHeight (cfg : MppSysDecBufChkCfg) : ℕ :=
  let height := if cfg.vStride ≠ 0 then cfg.vStride else cfg.height
  match cfg.type with
  | .hevc => mppAlign A.u32 (A.u32 (height + extPix soc cfg 8)) 16
  | .avc => mppAlign A.u32 (A.u32 (height + extPix soc cfg 16)) 16
  | .vp9 => mppAlign A.u32 height 64
  | _ => mppAlign A.u32 height 16

/-- The `aligned_byte` of the FBC case -/
def fbcByte (odd : Bool) (type : MppCodingType) (depth pixel : ℕ) : ℕ :=
  let byte :=
    if odd then A.u32 ((mppAlign A.u32 pixel 256 ||| 256) * depth) / 8
    else A.u32 (mppAlign A.u32 pixel 64 * depth) / 8
  match type with
  | .avc | .avsplus | .avs | .avs2 | .hevc | .vp9 => mppAlign A.u32 byte 64
  | _ => mppAlign A.u32 byte 16

/-- The bits of a pixel, in the formats that FBC supports -/
def MppFrameFormat.afbcBpp : MppFrameFormat → Option ℕ
  | yuv420sp10bit => some 15
  | yuv422sp10bit => some 20
  | yuv420sp => some 12
  | yuv422sp => some 16
  | yuv444sp => some 24
  | yuv444sp10bit => some 30
  | _ => none

/-! ## The raster case -/

/-- The first `aligned_pixel` of the raster case -/
def rasterPixel (type : MppCodingType) (width : ℕ) : ℕ :=
  match type with
  | .hevc | .avs2 => mppAlign A.u32 width 64
  | .avc => mppAlign A.u32 width 16
  | _ => width

/-- The first `aligned_height` of the raster case -/
def rasterHeight (type : MppCodingType) (height : ℕ) : ℕ :=
  match type with
  | .avc | .vp8 | .h263 | .mpeg2 | .mpeg4 => mppAlign A.u32 height 16
  | .vp9 =>
    match soc with
    | .rk3399 => mppAlign A.u32 height 64
    | .rk3588 => mppAlign A.u32 height 16
    | _ => mppAlign A.u32 height 8
  | _ => mppAlign A.u32 height 8

/-- How the hardware needs its lines -/
def hwAlign (type : MppCodingType) : SysCfgAlignType :=
  match type with
  | .hevc => .align64
  | .vp9 => if soc = .rk3576 then .align128OddPlus64 else .align256Odd
  | .av1 => if soc = .rk3588 then .align16 else .align128
  | _ => .align16

/-- How it is fastest with them -/
def perfAlign : Option SysCfgAlignType :=
  match soc with
  | .rk3399 | .rk3568 | .rk3562 | .rk3528 | .rk3588 => some .align256Odd
  | .rk3576 => some .align128OddPlus64
  | _ => none

/-- The `aligned_byte` of the raster case, with the alignment that is an `update` -/
def rasterByte (type : MppCodingType) (byte : ℕ) : ℕ × Bool :=
  let byte := mppSysCfgAlign A (hwAlign soc type) byte
  if (byte > 1920 ∨ soc = .rk3576) ∧ type ≠ .mjpeg then
    match perfAlign soc with
    | some align => (mppSysCfgAlign A align byte, true)
    | none => (byte, false)
  else (byte, false)

/-- The `aligned_pixel` after an update -/
def pixelOf (fmt : MppFrameFormat) (byte : ℕ) : ℕ :=
  match fmt with
  | .yuv420sp10bit | .yuv422sp10bit | .yuv444sp10bit => A.u32 (byte * 8) / 10
  | .yuv422Yvyu | .yuv422Yuyv | .rgb565 | .bgr565 => byte / 2
  | .rgb888 | .bgr888 => byte / 3
  | _ => byte

/-- The `size_total` of the raster case, from that of the lines. It is `fmt_raw` that is told
    apart, so that one of tiles is none of the formats. -/
def rasterSize (type : MppCodingType) (fmt : MppFrameFormat) (tile : Bool) (size : ℕ) : ℕ :=
  if tile then A.u32 (size * 3) / 2 else
  match fmt with
  | .yuv420sp | .yuv420sp10bit | .yuv420p | .yuv420spVu =>
    mppSysCfgAlign A (if type = .av1 then .len420Av1 else if type = .avc then .len420
      else .lenDefault) size
  | .yuv422sp | .yuv422sp10bit | .yuv422p | .yuv422spVu | .yuv422Yuyv | .yuv422Yvyu
  | .yuv422Uyvy | .yuv422Vyuy | .yuv440sp | .yuv411sp =>
    mppSysCfgAlign A (if type = .avc then .len422Avc else if type = .av1 then .len422Av1
      else .len422) size
  | .yuv400 => size
  | .yuv444sp | .yuv444p | .yuv444sp10bit => mppSysCfgAlign A .len444 size
  | _ => A.u32 (size * 3) / 2

/-! ## The check -/

/-- `mpp_sys_dec_buf_chk_proc`: `odd` is `compat_ext_fbc_hdr_256_odd`. -/
def mppSysDecBufChkProc (odd : Bool) (cfg : MppSysDecBufChkCfg) : Option MppSysDecBufChkCfg :=
  let fmt := cfg.fmtCodec
  if cfg.type = .unused then none
  else if cfg.fmtFbc ≠ .none then
    let pixel := fbcPixel A cfg
    let height := fbcHeight A soc cfg
    let byte := fbcByte A odd cfg.type fmt.depth pixel
    some { cfg with
      hStrideByByte := byte
      hStrideByPixel := pixel
      vStride := height
      sizeTotal :=
        match fmt.afbcBpp with
        | some bpp => getAfbcMinSize A pixel height bpp
        | none => A.u32 (A.u32 (byte * height) * 3) / 2 }
  else
    let pixel := rasterPixel A cfg.type cfg.width
    let byte :=
      if cfg.hStrideByByte ≠ 0 then cfg.hStrideByByte else A.u32 (pixel * fmt.depth) / 8
    let height := if cfg.vStride ≠ 0 then cfg.vStride else rasterHeight A soc cfg.type cfg.height
    let (byte, update) := rasterByte A soc cfg.type byte
    some { cfg with
      hStrideByByte := byte
      hStrideByPixel := if update then pixelOf A fmt byte else pixel
      vStride := height
      sizeTotal := rasterSize A cfg.type fmt cfg.tile (A.u32 (byte * height)) }

end

end Libmpp.Base
