import Libmpp.Bitstream.ExpGolomb
import Libmpp.H264d.Marking
import Libmpp.Lib.EndMark

/-!
# The slice header of the H.264 decoder

`process_slice` of `h264d_slice.c`, with the three functions that read the lists of a
slice header: the modifications of the reference lists, the table of weights and the
memory management control operations.

A read that fails goes to the label `__BITREAD_ERR`, where the function returns what the
reader has returned last. A list that is too long goes to the same label, after reads that
have not failed: so the function returns `MPP_OK`, and the header is read on from the
middle of the list.

The parameter sets that a slice activates are those of `SliceEnv.activate`. The recovery
point, the layers of a multi-view stream and the error flags are left out. The header
fields are numbers of `32` bits; those that can be negative are integers.

A function lets no list through without its end exactly when the bits of none go on to the
bound (`unterminated_rejected_iff`).
-/

namespace Libmpp.H264d

open Base Bitstream

inductive RefList
  | list0
  | list1
  deriving DecidableEq, Repr

/-- A modification of a reference list: the entries of one index in the arrays of the
    current context. -/
structure Modification where
  modificationOfPicNumsIdc : UInt32 := 0
  absDiffPicNumMinus1 : UInt32 := 0
  longTermPicIdx : UInt32 := 0
  absDiffViewIdxMinus1 : UInt32 := 0
  deriving DecidableEq, Repr

/-- `MAX_REORDER_TIMES` -/
def maxReorderTimes : ℕ := 33

/-- `MAX_MARKING_TIMES` -/
def maxMarkingTimes : ℕ := 35

def pSlice : ℕ := 0
def bSlice : ℕ := 1
def iSlice : ℕ := 2
def spSlice : ℕ := 3
def siSlice : ℕ := 4

/-- The slice (`H264_SLICE_t`). -/
structure SliceHead where
  svcExtensionFlag : ℤ := -1
  mvcNonIdrFlag : Bool := false
  idrFlag : Bool := false
  nalReferenceIdc : ℕ := 0
  startMbNr : UInt32 := 0
  sliceType : ℕ := 0
  picParameterSetId : UInt32 := 0
  frameNum : ℕ := 0
  fieldPicFlag : Bool := false
  bottomFieldFlag : Bool := false
  structure_ : PictureStructure := .frame
  mbAffFrameFlag : Bool := false
  idrPicId : UInt32 := 0
  picOrderCntLsb : ℕ := 0
  deltaPicOrderCntBottom : ℤ := 0
  deltaPicOrderCnt0 : ℤ := 0
  deltaPicOrderCnt1 : ℤ := 0
  pocUsedBitlen : ℤ := 0
  redundantPicCnt : UInt32 := 0
  directSpatialMvPredFlag : Bool := false
  numRefIdxActive : RefList → UInt32 := fun _ => 0
  numRefIdxOverrideFlag : Bool := false
  refPicListReorderingFlag : RefList → Bool := fun _ => false
  modifications : RefList → ℕ → Modification := fun _ _ => {}
  decRefPicMarkingBuffer : List Drpm := []
  drpmUsedBitlen : ℤ := 0
  noOutputOfPriorPicsFlag : Bool := false
  longTermReferenceFlag : Bool := false
  adaptiveRefPicBufferingFlag : Bool := false

/-- The slice is of an IDR picture, of its own or of a view. -/
def SliceHead.marksIdr (s : SliceHead) : Bool :=
  s.idrFlag || (s.svcExtensionFlag = 0 && !s.mvcNonIdrFlag)

/-- The active parameter sets, as far as the header depends on them. -/
structure ActiveSets where
  chromaFormatIdc : ℕ := 1
  log2MaxFrameNumMinus4 : ℕ := 0
  frameMbsOnlyFlag : Bool := true
  mbAdaptiveFrameFieldFlag : Bool := false
  picOrderCntType : ℕ := 0
  log2MaxPicOrderCntLsbMinus4 : ℕ := 0
  deltaPicOrderAlwaysZeroFlag : Bool := false
  bottomFieldPicOrderInFramePresentFlag : Bool := false
  redundantPicCntPresentFlag : Bool := false
  numRefIdxL0DefaultActiveMinus1 : UInt32 := 0
  numRefIdxL1DefaultActiveMinus1 : UInt32 := 0
  weightedPredFlag : Bool := false
  weightedBipredIdc : ℕ := 0
  deriving DecidableEq, Repr

/-- What a slice header is read with: its NAL unit, and what `set_slice_user_parmeters`
    makes of the id of its parameter set. -/
structure SliceEnv where
  nalIdr : Bool
  nalReferenceIdc : ℕ
  activate : UInt32 → Except {ret : MppRet // ret < 0} ActiveSets

/-- The slice and the bits it is read from. `bitRet` is what the reader has returned last,
    and `drpm` the operations that the current context keeps the memory of. -/
structure Reading where
  slice : SliceHead
  reader : BitReadCtx
  bitRet : MppRet := mppOk
  drpm : ℕ → Option Drpm := fun _ => none

/-- The labels that an error goes to. -/
inductive Jump
  | bitreadErr
  | failed (ret : MppRet)
  deriving DecidableEq, Repr

abbrev Parse := EStateM Jump Reading

/-- What a function returns, from its end or from the label. -/
def finish (p : Parse Unit) (s : Reading) : MppRet × Reading :=
  match p s with
  | .ok _ s => (mppOk, s)
  | .error .bitreadErr s => (s.bitRet, s)
  | .error (.failed ret) s => (ret, s)

/-- `FUN_CHECK` -/
def checkedCall (f : Reading → MppRet × Reading) : Parse Unit := fun s =>
  if (f s).1 < 0 then .error (.failed (f s).1) (f s).2 else .ok () (f s).2

def setSlice (f : SliceHead → SliceHead) : Parse Unit :=
  modify fun s => { s with slice := f s.slice }

/-- An `if` without an `else`. -/
def onlyIf (b : Bool) (p : Parse Unit) : Parse Unit := if b then p else pure ()

/-! ## Reading fields -/

section Fields

variable {α : Type}

/-- Read a field, and go to the label when there is none. -/
def readField (rd : BitReadCtx → Option (α × BitReadCtx)) : Parse α := fun s =>
  match rd s.reader with
  | some (a, reader) => .ok a { s with reader, bitRet := mppOk }
  | none => .error .bitreadErr { s with bitRet := mppErrReadBit }

/-- `READ_BITS` -/
def readBits (numBits : ℕ) : Parse ℕ := readField (mppReadBits · numBits)

/-- A flag of one bit. -/
def mppReadOnebit (ctx : BitReadCtx) : Option (Bool × BitReadCtx) := do
  let (bit, ctx) ← mppReadBits ctx 1
  some (bit ≠ 0, ctx)

/-- `READ_ONEBIT` -/
def readOnebit : Parse Bool := readField mppReadOnebit

/-- `READ_UE` -/
def readUe : Parse UInt32 := readField mppReadUe

/-- `READ_SE` -/
def readSe : Parse ℤ := readField mppReadSe

end Fields

/-! ## Lists with an end mark -/

section Lists

variable {α : Type}

/-- The numbers of an item, each stored by `set`. -/
def readNumbers (set : (α → α) → Parse Unit) : List (UInt32 → α → α) → Parse Unit
  | [] => return
  | store :: rest => do
    let v ← readUe
    set (store v)
    readNumbers set rest

/-- A flag, and the list when it is set. The loop goes to the label after `bound` items. -/
def readList (store : Bool → SliceHead → SliceHead) (item : ℕ → Parse α) (isLast : α → Bool)
    (bound : ℕ) : Parse Unit := do
  let flag ← readOnebit
  setSlice (store flag)
  if flag then readUntil item isLast (throw .bitreadErr) bound 0

end Lists

/-! ## The modifications of the reference lists -/

/-- Change the modification numbered `i`. -/
def setModification (l : RefList) (i : ℕ) (f : Modification → Modification) : Parse Unit :=
  setSlice fun s => { s with
    modifications := Function.update s.modifications l
      (Function.update (s.modifications l) i (f (s.modifications l i))) }

/-- The number that comes with a modification. -/
def modificationNumbers (idc : UInt32) : List (UInt32 → Modification → Modification) :=
  if idc = 0 ∨ idc = 1 then [fun v m => { m with absDiffPicNumMinus1 := v }]
  else if idc = 2 then [fun v m => { m with longTermPicIdx := v }]
  else if idc = 4 ∨ idc = 5 then [fun v m => { m with absDiffViewIdxMinus1 := v }]
  else []

/-- A round of the loop. -/
def readModification (l : RefList) (i : ℕ) : Parse UInt32 := do
  let idc ← readUe
  setModification l i ({ · with modificationOfPicNumsIdc := idc })
  readNumbers (setModification l i) (modificationNumbers idc)
  return idc

/-- The bound of a list, from the number of its active references. -/
def modificationBound (active : UInt32) : ℕ := min (active + 1).toNat maxReorderTimes

def setReorderingFlag (l : RefList) (flag : Bool) (s : SliceHead) : SliceHead :=
  { s with refPicListReorderingFlag := Function.update s.refPicListReorderingFlag l flag }

/-- The modifications of one list. When there are too many, `MPP_NOK` is set on the way to
    the label, which sets it again. -/
def readModifications (l : RefList) : Parse Unit := do
  let s ← get
  readList (setReorderingFlag l) (readModification l) (· = 3)
    (modificationBound (s.slice.numRefIdxActive l))

/-- The list is in the header of a slice of this type. -/
def SliceHead.has (s : SliceHead) : RefList → Bool
  | .list0 => s.sliceType % 5 ≠ iSlice ∧ s.sliceType % 5 ≠ siSlice
  | .list1 => s.sliceType % 5 = bSlice

def refPicListMvcModification : Reading → MppRet × Reading := finish do
  let s ← get
  onlyIf (s.slice.has .list0) (readModifications .list0)
  onlyIf (s.slice.has .list1) (readModifications .list1)

/-! ## The table of weights -/

/-- Do it `n` times. -/
def times (p : Parse Unit) : ℕ → Parse Unit
  | 0 => return
  | n + 1 => do
    p
    times p n

/-- A weight and an offset. -/
def readWeightAndOffset : Parse Unit := do
  let _ ← readSe
  let _ ← readSe

/-- A flag, and the weights and offsets of as many components when it is set. -/
def readWeights (components : ℕ) : Parse Unit := do
  let flag ← readOnebit
  if flag then times readWeightAndOffset components

/-- The luma and chroma weights of a reference. -/
def readWeightEntry (chromaFormatIdc : ℕ) : Parse Unit := do
  readWeights 1
  if chromaFormatIdc ≠ 0 then readWeights 2

/-- The number of rounds of a loop up to a signed number. -/
def rounds (n : UInt32) : ℕ := n.toInt32.toInt.toNat

def predWeightTable (sets : ActiveSets) : Reading → MppRet × Reading := finish do
  let _ ← readUe
  onlyIf (sets.chromaFormatIdc ≠ 0) (readUe >>= fun _ => pure ())
  let s ← get
  times (readWeightEntry sets.chromaFormatIdc) (rounds (s.slice.numRefIdxActive .list0))
  onlyIf (s.slice.sliceType = bSlice ∧ sets.weightedBipredIdc = 1)
    (times (readWeightEntry sets.chromaFormatIdc) (rounds (s.slice.numRefIdxActive .list1)))

/-! ## The memory management control operations -/

/-- Change the operation numbered `i`. -/
def setDrpm (i : ℕ) (f : Drpm → Drpm) : Parse Unit :=
  modify fun s => { s with drpm := Function.update s.drpm i ((s.drpm i).map f) }

/-- The operation numbered `i` has memory; new memory is zero. -/
def Reading.alloc (i : ℕ) (s : Reading) : Reading :=
  let new : Drpm := { memoryManagementControlOperation := 0 }
  { s with drpm := Function.update s.drpm i (some ((s.drpm i).getD new)) }

/-- Append the operation numbered `i` to the list of the slice. -/
def addCommand (i : ℕ) : Parse Unit :=
  modify fun s => { s with
    slice := { s.slice with
      decRefPicMarkingBuffer := s.slice.decRefPicMarkingBuffer ++ (s.drpm i).toList } }

/-- The value of a number kept as a signed one. -/
def toS32 (v : UInt32) : ℤ := v.toInt32.toInt

/-- The numbers that come with an operation. -/
def markingNumbers (val : UInt32) : List (UInt32 → Drpm → Drpm) :=
  (if val = 1 ∨ val = 3 then [fun v d => { d with differenceOfPicNumsMinus1 := toS32 v }] else []) ++
    (if val = 2 then [fun v d => { d with longTermPicNum := toS32 v }] else []) ++
    (if val = 3 ∨ val = 6 then [fun v d => { d with longTermFrameIdx := toS32 v }] else []) ++
    (if val = 4 then [fun v d => { d with maxLongTermFrameIdxPlus1 := toS32 v }] else [])

/-- The numbers of an operation. The list of the slice gets the operation, unless it is the
    last. -/
def readCommand (i : ℕ) (val : UInt32) : Parse Unit := do
  readNumbers (setDrpm i) (markingNumbers val)
  onlyIf (val ≠ 0) (addCommand i)

/-- A round of the loop. -/
def readMarking (i : ℕ) : Parse ℕ := do
  modify (Reading.alloc i)
  let val ← readUe
  setDrpm i ({ · with memoryManagementControlOperation := val.toNat })
  readCommand i val
  return val.toNat

/-- What is read between two states of the reader, without the inserted bytes. -/
def usedBitlen (before after : BitReadCtx) : ℤ :=
  (after.usedBits - before.usedBits : ℤ) -
    (after.emulationPreventionBytes - before.emulationPreventionBytes) * 8

/-- The two flags of an IDR picture. -/
def readIdrFlags : Parse Unit := do
  let noOutputOfPriorPicsFlag ← readOnebit
  setSlice ({ · with noOutputOfPriorPicsFlag })
  let longTermReferenceFlag ← readOnebit
  setSlice ({ · with longTermReferenceFlag })

def setAdaptiveFlag (adaptiveRefPicBufferingFlag : Bool) (s : SliceHead) : SliceHead :=
  { s with adaptiveRefPicBufferingFlag }

def readMarkings : Parse Unit := do
  let s ← get
  if s.slice.marksIdr then readIdrFlags
  else readList setAdaptiveFlag readMarking (· = 0) maxMarkingTimes

def decRefPicMarking : Reading → MppRet × Reading := finish do
  let before ← get
  setSlice ({ · with drpmUsedBitlen := 0 })
  readMarkings
  let after ← get
  setSlice ({ · with drpmUsedBitlen := usedBitlen before.reader after.reader })

/-! ## The slice header -/

/-- Read a field of the slice. -/
def readInto {α : Type} (field : Parse α) (store : α → SliceHead → SliceHead) : Parse Unit := do
  let a ← field
  setSlice (store a)

/-- The first fields, up to the id of the parameter set (with `init_slice_parmeters`), and
    the sets it activates. -/
def readFirst (env : SliceEnv) : Parse ActiveSets := do
  readInto readUe fun startMbNr s => { s with startMbNr }
  readInto readUe fun type s => { s with sliceType := type.toNat % 5 }
  let s ← get
  onlyIf (s.slice.sliceType = spSlice ∨ s.slice.sliceType = siSlice)
    (throw (.failed mppErrUnknow))
  let picParameterSetId ← readUe
  setSlice ({ · with
    picParameterSetId
    idrFlag := env.nalIdr
    nalReferenceIdc := env.nalReferenceIdc })
  match env.activate picParameterSetId with
  | .ok sets => return sets
  | .error ret => throw (.failed ret)

/-- Which field the slice is of, in a stream that is not of frames only. -/
def readFieldPic : Parse Unit := do
  let fieldPicFlag ← readOnebit
  setSlice ({ · with fieldPicFlag })
  if fieldPicFlag then
    readInto readOnebit fun bottomFieldFlag s => { s with
      bottomFieldFlag
      structure_ := if bottomFieldFlag then .bottomField else .topField }
  else setSlice ({ · with structure_ := .frame, bottomFieldFlag := false })

/-- The frame number, and the structure of the picture. -/
def readStructure (sets : ActiveSets) : Parse Unit := do
  readInto (readBits (sets.log2MaxFrameNumMinus4 + 4)) fun frameNum s => { s with frameNum }
  onlyIf sets.frameMbsOnlyFlag
    (setSlice ({ · with structure_ := .frame, fieldPicFlag := false, bottomFieldFlag := false }))
  onlyIf (!sets.frameMbsOnlyFlag) readFieldPic
  setSlice fun s => { s with mbAffFrameFlag := sets.mbAdaptiveFrameFieldFlag && !s.fieldPicFlag }

/-- A difference that is in the stream only with one for both fields. -/
def readDelta (inStream : Bool) (store : ℤ → SliceHead → SliceHead) : Parse Unit :=
  if inStream then readInto readSe store else setSlice (store 0)

/-- The fields of the order counts. -/
def readOrderCounts (sets : ActiveSets) : Parse Unit := do
  let before ← get
  let both := sets.bottomFieldPicOrderInFramePresentFlag && !before.slice.fieldPicFlag
  onlyIf (sets.picOrderCntType = 0) do
    readInto (readBits (sets.log2MaxPicOrderCntLsbMinus4 + 4)) fun picOrderCntLsb s =>
      { s with picOrderCntLsb }
    readDelta both fun deltaPicOrderCntBottom s => { s with deltaPicOrderCntBottom }
  onlyIf (sets.picOrderCntType = 1) do
    readDelta (!sets.deltaPicOrderAlwaysZeroFlag) fun deltaPicOrderCnt0 s =>
      { s with deltaPicOrderCnt0 }
    readDelta (!sets.deltaPicOrderAlwaysZeroFlag && both) fun deltaPicOrderCnt1 s =>
      { s with deltaPicOrderCnt1 }
  let after ← get
  setSlice ({ · with pocUsedBitlen := usedBitlen before.reader after.reader })

def readDirect (type : ℕ) : Parse Unit :=
  if type = bSlice then
    readInto readOnebit fun directSpatialMvPredFlag s => { s with directSpatialMvPredFlag }
  else setSlice ({ · with directSpatialMvPredFlag := false })

def setActive (l : RefList) (n : UInt32) (s : SliceHead) : SliceHead :=
  { s with numRefIdxActive := Function.update s.numRefIdxActive l n }

/-- The numbers of active references in the header of a slice. -/
def readOverride (type : ℕ) : Parse Unit := do
  let numRefIdxOverrideFlag ← readOnebit
  setSlice ({ · with numRefIdxOverrideFlag })
  onlyIf numRefIdxOverrideFlag do
    readInto readUe fun n => setActive .list0 (n + 1)
    onlyIf (type = bSlice) (readInto readUe fun n => setActive .list1 (n + 1))

/-- The number of active references of both lists. -/
def readActive (sets : ActiveSets) : Parse Unit := do
  let s ← get
  let type := s.slice.sliceType
  setSlice (setActive .list0 (sets.numRefIdxL0DefaultActiveMinus1 + 1))
  setSlice (setActive .list1 (sets.numRefIdxL1DefaultActiveMinus1 + 1))
  onlyIf (type = pSlice ∨ type = spSlice ∨ type = bSlice) (readOverride type)
  onlyIf (type ≠ bSlice) (setSlice (setActive .list1 0))

/-- The header up to the modifications of the reference lists. -/
def readToLists (env : SliceEnv) : Parse ActiveSets := do
  let sets ← readFirst env
  readStructure sets
  let s ← get
  onlyIf s.slice.marksIdr (readInto readUe fun idrPicId s => { s with idrPicId })
  readOrderCounts sets
  onlyIf sets.redundantPicCntPresentFlag
    (readInto readUe fun redundantPicCnt s => { s with redundantPicCnt })
  readDirect s.slice.sliceType
  readActive sets
  return sets

/-- The slice has a table of weights. -/
def ActiveSets.weighted (sets : ActiveSets) (type : ℕ) : Bool :=
  (sets.weightedPredFlag && (type = pSlice || type = spSlice)) ||
    (sets.weightedBipredIdc = 1 && type = bSlice)

/-- The header up to the memory management control operations. -/
def readToMarking (env : SliceEnv) : Parse Unit := do
  let sets ← readToLists env
  checkedCall refPicListMvcModification
  let s ← get
  onlyIf (sets.weighted s.slice.sliceType) (checkedCall (predWeightTable sets))
  setSlice ({ · with drpmUsedBitlen := 0 })

def processSlice (env : SliceEnv) : Reading → MppRet × Reading := finish do
  readToMarking env
  let s ← get
  onlyIf (s.slice.nalReferenceIdc ≠ 0) (checkedCall decRefPicMarking)

/-- What `parser_one_nalu` makes of a NAL unit. -/
inductive NaluRet
  | startOfPicture
  | readNaluError
  deriving DecidableEq, Repr

/-- The slice units in `parser_one_nalu`: the slice is used from the start of a picture
    on. -/
def parserOneNalu (env : SliceEnv) (s : Reading) : NaluRet × MppRet × Reading :=
  if (processSlice env s).1 < 0 then (.readNaluError, processSlice env s)
  else (.startOfPicture, mppOk, (processSlice env s).2)

end Libmpp.H264d
