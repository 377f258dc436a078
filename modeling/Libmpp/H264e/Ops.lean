import Mathlib

/-!
# Reordering and marking operations

The operations on the reference lists that the dpb attaches to a slice
(`h264e_slice.c`): `H264eRplmo` moves a reference picture to the front of the
list, `H264eMmco` marks reference pictures. Either kind is kept in a short array
with a write and a read position, which both the dpb and the slice header use.

* `OpList` is such an array with `size` entries: the operations written so far and
  the read position. It never holds more than `size` of them, which is a field.
* `H264eMarkingInfo` has the flags of an IDR frame beside the operations.
-/

namespace Libmpp.H264e

/-- An array of `size` operations, written from the front, and the read position. -/
@[ext]
structure OpList (size : ℕ) (α : Type) where
  /-- The operations written; the source counts them in `wr_cnt`. -/
  ops : List α
  rdCnt : ℕ
  fits : ops.length ≤ size
  deriving DecidableEq

namespace OpList

variable {size : ℕ} {α : Type}

/-- The array as `h264e_reorder_init` and `h264e_marking_init` leave it. -/
def init : OpList size α := ⟨[], 0, Nat.zero_le _⟩

/-- `wr_rewind`: forget the operations. -/
def wrRewind (info : OpList size α) : OpList size α := { info with ops := [], fits := Nat.zero_le _ }

/-- `wr_op`: one more operation; a full array is left as it is. -/
def wrOp (info : OpList size α) (op : α) : OpList size α :=
  if h : info.ops.length < size then
    { info with ops := info.ops ++ [op], fits := by simpa using h }
  else info

theorem ops_wrOp_of_lt {info : OpList size α} (h : info.ops.length < size) (op : α) :
    (info.wrOp op).ops = info.ops ++ [op] := by
  rw [wrOp, dif_pos h]

end OpList

/-- A modification of the reference list. -/
structure H264eRplmo where
  modificationOfPicNumsIdc : ℤ
  absDiffPicNumMinus1 : ℤ
  longTermPicIdx : ℤ
  absDiffViewIdxMinus1 : ℤ
  deriving DecidableEq, Repr

/-- The source declares its operations without an initial value. The fields that an
    operation of its kind does not use are zero here; nothing reads them. -/
instance : Zero H264eRplmo := ⟨⟨0, 0, 0, 0⟩⟩

/-- A memory management control operation. -/
structure H264eMmco where
  mmco : ℤ
  /-- for mmco 1 and 3 -/
  differenceOfPicNumsMinus1 : ℤ
  /-- for mmco 2 -/
  longTermPicNum : ℤ
  /-- for mmco 3 and 6 -/
  longTermFrameIdx : ℤ
  /-- for mmco 4 -/
  maxLongTermFrameIdxPlus1 : ℤ
  deriving DecidableEq, Repr

instance : Zero H264eMmco := ⟨⟨0, 0, 0, 0, 0⟩⟩

/-- `H264E_MAX_REFS_CNT` -/
abbrev h264eMaxRefsCnt : ℕ := 16

/-- `MAX_H264E_MMCO_CNT` -/
abbrev maxH264eMmcoCnt : ℕ := 8

/-- The list modifications of a slice. -/
abbrev H264eReorderInfo := OpList h264eMaxRefsCnt H264eRplmo

/-- The marking of a slice. -/
@[ext]
structure H264eMarkingInfo where
  idrFlag : ℤ
  noOutputOfPriorPics : ℤ
  longTermReferenceFlag : ℤ
  adaptiveRefPicBuffering : ℤ
  list : OpList maxH264eMmcoCnt H264eMmco
  deriving DecidableEq

/-- `h264e_marking_init` -/
def h264eMarkingInit : H264eMarkingInfo := ⟨0, 0, 0, 0, .init⟩

end Libmpp.H264e
