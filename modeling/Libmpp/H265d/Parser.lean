import Libmpp.H265d.FrameRps
import Libmpp.Lib.Machine

/-!
# Parsing packets

`parserNalUnit` is what one NAL unit does to the frames: `hlsSliceHeader` moves on to a
new sequence at an IDR or BLA picture and when the active SPS changes, `hevcFrameStart`
derives the reference picture set and takes a frame for the picture. A packet
(`h265dParse`) is parsed up to the first NAL unit that fails; then a frame is output.

A slice header is given by the values read from it, and by where reading stops when the
header is not accepted (`HeaderStop`). Which SPS is active is looked up elsewhere: the
header carries the SPS when it becomes the active one.
-/

namespace Libmpp.H265d

/-- How far `hls_slice_header` gets: to its parameter sets, to the fields before the order
    count, to the reference picture set, to the fields behind it, or to its end. -/
inductive HeaderStop
  | parameterSets | address | refPicSet | tail | accepted
deriving DecidableEq

/-- The header of a slice, as it is read. -/
structure SliceNal where
  nalUnitType : NalUnitType
  temporalId : ℕ := 0
  firstSliceInPic : Bool := true
  newSps : Option HEVCSPS := none
  dependent : Bool := false
  picOrderCntLsb : ℕ := 0
  shortTermRps : ShortTermRPS := ⟨0, []⟩
  longTermRps : CodedLtRps := {}
  stop : HeaderStop := .accepted
deriving DecidableEq

/-- A NAL unit: a slice, the end of a sequence, the recovery points in an SEI message
    (those with a bad count are `none`), or one that leaves the frames alone, accepted or not. -/
inductive Nal
  | slice (n : SliceNal)
  | endOfSeq (t : NalUnitType)
  | sei (t : NalUnitType) (recoveryPoints : List (Option ℤ))
  | passive (t : NalUnitType) (accepted : Bool)
deriving DecidableEq

variable (cfg : MppDecBaseCfg) (s : HEVCContext)

/-- The next value of `seq_decode`. -/
def nextSequence : HEVCContext :=
  { s with seqDecode := (s.seqDecode + 1) % 256, era := s.era + 1, maxRa := intMax }

/-- `mpp_hevc_compute_poc` -/
def computePoc (maxPocLsb pocLsb : ℤ) : ℤ :=
  let prevPocLsb := s.pocTid0.tmod maxPocLsb
  let prevPocMsb := wrap32 (s.pocTid0 - prevPocLsb)
  let pocMsb :=
    if s.nalUnitType.isBla then 0
    else if pocLsb < prevPocLsb ∧ prevPocLsb - pocLsb ≥ maxPocLsb / 2 then
      wrap32 (prevPocMsb + maxPocLsb)
    else if pocLsb > prevPocLsb ∧ pocLsb - prevPocLsb > maxPocLsb / 2 then
      wrap32 (prevPocMsb - maxPocLsb)
    else prevPocMsb
  wrap32 (pocMsb + pocLsb)

/-- The types whose pictures later order counts are not derived from (8.3.1). -/
def NalUnitType.keepsPocTid0 (t : NalUnitType) : Bool :=
  t = .trailN || t = .tsaN || t = .stsaN || t = .radlN || t = .radlR || t = .raslN || t = .raslR

/-- The start of `hls_slice_header`: a sequence begins at an IDR or BLA picture. -/
def beginPicture (n : SliceNal) (s : HEVCContext) : HEVCContext :=
  let s := { s with firstSliceInPicFlag := n.firstSliceInPic }
  let t := s.nalUnitType
  let s :=
    if (t.isIdr || t.isBla) && n.firstSliceInPic then
      let s := nextSequence s
      if t.isIdr then clearRefs s else s
    else s
  if t.isIrap && s.missRefFlag && n.firstSliceInPic then
    { s with maxRa := intMax, missRefFlag := false }
  else s

/-- Another SPS becomes active: its pictures are a sequence of their own. -/
def activateSps (n : SliceNal) (s : HEVCContext) : HEVCContext :=
  match n.newSps with
  | some sps => nextSequence { clearRefs s with sps := some sps }
  | none => s

/-- The order count and the reference picture set of an independent slice. -/
def readPoc (n : SliceNal) (s : HEVCContext) : HEVCContext :=
  if s.nalUnitType.isIdr then { s with shortTermRps := none, poc := 0 }
  else
    match s.sps with
    | none => s
    | some sps =>
      let poc := computePoc s (2 ^ sps.log2MaxPocLsb) n.picOrderCntLsb
      let s := if n.firstSliceInPic then { s with poc } else s
      if n.stop = .refPicSet then s
      else
        { s with
          shortTermRps := some n.shortTermRps
          longTermRps := decodeLtRps sps s.poc n.picOrderCntLsb n.longTermRps }

/-- The picture that the next order counts are derived from. -/
def keepPocTid0 (n : SliceNal) (s : HEVCContext) : HEVCContext :=
  if n.temporalId = 0 ∧ ¬ s.nalUnitType.keepsPocTid0 then { s with pocTid0 := s.poc } else s

/-- `hls_slice_header`, and whether the header is accepted. -/
def hlsSliceHeader (n : SliceNal) (s : HEVCContext) : HEVCContext × Bool :=
  let s := beginPicture n s
  if n.stop = .parameterSets then (s, false)
  else
    let s := activateSps n s
    if n.stop = .address then (s, false)
    else if n.dependent ∧ ¬ n.firstSliceInPic then (s, n.stop = .accepted)
    else
      let s := readPoc n s
      if n.stop = .refPicSet then (s, false)
      else (keepPocTid0 n s, n.stop = .accepted)

/-- The frame that the code takes for the current one when it sorts out the output. -/
def HEVCContext.withPoc : Option (Fin maxDpbSize) :=
  Fin.find? fun i => (s.dpb i).poc = s.poc

/-- The output flag of a frame, when there is one. -/
def setOutput (frame : Option (Fin maxDpbSize)) (output : Bool) : HEVCContext :=
  match frame with
  | some i => s.setFrame i { s.dpb i with flags := { (s.dpb i).flags with output } }
  | none => s

/-- All frames but the current one are output. -/
def flushOthers : HEVCContext :=
  let frame := s.withPoc
  setOutput (h265dFlush cfg (setOutput s frame false)) frame true

/-- What `hevc_frame_start` does about a picture with a missing reference. -/
def handleMissRef : HEVCContext :=
  if cfg.disableError ∨ ¬ s.missRefFlag then s
  else if s.nalUnitType.isIrap then flushOthers cfg s
  else if s.recovery.validFlag ∧ s.recovery.firstFrmValid ∧ s.recovery.firstFrmId = s.poc then
    { s with recovery := { s.recovery with firstFrmRefMissing := true } }
  else
    match s.ref with
    | some i => s.setFrame i { s.dpb i with errorFlag := true }
    | none => s

/-- `hevc_frame_start` -/
def hevcFrameStart : HEVCContext × Bool :=
  if s.ref.isSome then (s, true)
  else
    let (s, ok) := frameRps cfg { s with
      isDecoded := false, firstNalType := some s.nalUnitType, missRefFlag := false }
    if ok then
      match setNewRef s s.poc with
      | some s => (handleMissRef cfg s, true)
      | none => ({ s with ref := none }, false)
    else ({ s with ref := none }, false)

/-- The recovery point that a slice begins or ends. -/
def followRecovery : HEVCContext :=
  let r := s.recovery
  if ¬ r.validFlag then s
  else if ¬ r.firstFrmValid then
    { s with recovery := { r with
        firstFrmId := s.poc, firstFrmValid := true, recoveryPicId := s.poc + r.recoveryFrameCnt } }
  else if r.recoveryPicId < s.poc then { s with recovery := {} }
  else s

/-- Where decoding may begin. -/
def setMaxRa : HEVCContext :=
  if s.maxRa = intMax then
    if s.nalUnitType.isCra ∨ s.nalUnitType.isBla ∨ (s.recovery.validFlag ∧
        s.recovery.firstFrmValid ∧ s.recovery.firstFrmId = s.poc) then
      { s with maxRa := s.poc }
    else if s.nalUnitType.isIdr then { s with maxRa := intMin }
    else s
  else s

/-- The slice is left out: what it refers to was not decoded. -/
def HEVCContext.isSkipped : Bool :=
  ((s.nalUnitType = .raslR || s.nalUnitType = .raslN) && s.poc ≤ s.maxRa) ||
    (!cfg.disableError && s.poc < s.maxRa && !s.nalUnitType.isIrap)

/-- After a RASL picture that is decoded, all others are. -/
def passRasl : HEVCContext :=
  if s.nalUnitType = .raslR ∧ s.maxRa < s.poc then { s with maxRa := intMin } else s

/-- An accepted slice. -/
def decodeSlice : HEVCContext × Bool :=
  let s := setMaxRa (followRecovery s)
  if s.isSkipped cfg then ({ s with isDecoded := false }, true)
  else
    let s := passRasl s
    if s.firstSliceInPicFlag then
      match hevcFrameStart cfg s with
      | (s, false) => (s, false)
      | (s, true) =>
        (if some s.nalUnitType = s.firstNalType then { s with isDecoded := true } else s, true)
    else if s.ref.isNone ∨ some s.nalUnitType ≠ s.firstNalType then (s, true)
    else ({ s with isDecoded := true }, true)

/-- The recovery points of an SEI message. -/
def seiRecovery (points : List (Option ℤ)) : HEVCContext :=
  points.foldl (fun s p =>
    match p with
    | some cnt => { s with
        maxRa := intMin, recovery := { validFlag := true, recoveryFrameCnt := cnt } }
    | none => { s with maxRa := intMin }) s

/-- `parser_nal_unit`, and whether the packet is parsed on. Without a task, as in extra data,
    slices are not read. -/
def parserNalUnit (task : Bool) (s : HEVCContext) : Nal → HEVCContext × Bool
  | .slice n =>
    let s := { s with nalUnitType := n.nalUnitType }
    if task then
      match hlsSliceHeader n s with
      | (s, true) => decodeSlice cfg s
      | (s, false) => (s, s.firstNalType.any fun t => t ≠ s.nalUnitType)
    else (s, true)
  | .endOfSeq t => (nextSequence { s with nalUnitType := t }, true)
  | .sei t points => (seiRecovery { s with nalUnitType := t } points, true)
  | .passive t accepted => ({ s with nalUnitType := t }, accepted)

/-- `parser_nal_units`, up to the first NAL unit that fails. -/
def parserNalUnits (cfg : MppDecBaseCfg) (task : Bool) : List Nal → HEVCContext → HEVCContext
  | [], s => s
  | n :: ns, s =>
    match parserNalUnit cfg task s n with
    | (s, true) => parserNalUnits cfg task ns s
    | (s, false) => s

/-- What `h265d_parse` does when the packet is parsed. -/
def finishPacket (eos : Bool) (s : HEVCContext) : HEVCContext :=
  let s := if eos then h265dFlush cfg s else s
  (outputFrame cfg false { s with isDecoded := false }).1

/-- `h265d_parse` -/
def h265dParse (nals : List Nal) (eos : Bool) (s : HEVCContext) : HEVCContext :=
  finishPacket cfg eos (parserNalUnits cfg true nals { s with ref := none })

/-- `h265d_reset` -/
def h265dReset : HEVCContext :=
  { flushDpb (h265dFlush cfg s) with maxRa := intMax, firstIFastPlay := false }

/-- `h265d_callback`: the hardware met an error in the frame with the slot. -/
def h265dCallback (slot : ℕ) (s : HEVCContext) : HEVCContext :=
  if cfg.disableError then s
  else
    { s with
      maxRa := if s.firstNalType.any NalUnitType.isIrap then intMax else s.maxRa
      dpb := fun i =>
        if (s.dpb i).slotIndex = some slot then { s.dpb i with errorFlag := true } else s.dpb i }

/-- What the decoder is asked to do. -/
inductive Op
  | parse (nals : List Nal) (eos : Bool)
  | extraData (nals : List Nal)
  | flush
  | reset
  | callback (slot : ℕ)

/-- An operation on the decoder. -/
def Op.apply : Op → HEVCContext
  | .parse nals eos => h265dParse cfg nals eos s
  | .extraData nals => parserNalUnits cfg false nals s
  | .flush => h265dFlush cfg s
  | .reset => h265dReset cfg s
  | .callback slot => h265dCallback cfg slot s

/-- The operations, taken apart: a packet is begun and its NAL units are parsed. -/
inductive Event
  | op (o : Op)
  | start
  | nal (task : Bool) (n : Nal)

def Event.apply (cfg : MppDecBaseCfg) (s : HEVCContext) : Event → HEVCContext
  | .op o => o.apply cfg s
  | .start => { s with ref := none }
  | .nal task n => (parserNalUnit cfg task s n).1

/-- The decoder, between any two NAL units. -/
def decoder : Machine HEVCContext Event where
  init s := s = {}
  step s e s' := s' = e.apply cfg s

end Libmpp.H265d
