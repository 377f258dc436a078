import Mathlib

/-!
# Splitting an AVS2 stream

The splitter of the AVS2 decoder (`avs2d_parse.c`): a stream comes in packets, and
`avs2dParsePrepareSplit` puts the NAL units of a frame together from them, the headers in
one buffer and the slices in the other. `feed` is its caller, which calls it until a packet
is used up, and parses what it has each time that a frame is ready.

The last three bytes of a packet are kept, for a start code that is across two packets. A
packet is a list of bytes with a position; what the splitter does when the position would
move before the first of them, to bytes that are not of the packet, has no result. The
buffers grow as they have to, and an allocation that fails is left out.
-/

namespace Libmpp.Avs2d

/-! ## Start codes -/

/-- `AVS2_START_CODE` and the value of a start code -/
def startCodeOf (x : UInt8) : ℕ := 0x100 + x.toNat

/-- `AVS2_VIDEO_SEQUENCE_START_CODE` -/
def videoSequenceStartCode : ℕ := 0x1b0

/-- `AVS2_VIDEO_SEQUENCE_END_CODE` -/
def videoSequenceEndCode : ℕ := 0x1b1

/-- `AVS2_USER_DATA_START_CODE` -/
def userDataStartCode : ℕ := 0x1b2

/-- `AVS2_IS_START_CODE` -/
def isStartCode (x : ℕ) : Bool := x &&& 0xffffff00 == 0x100

/-- `AVS2_IS_SLICE_START_CODE` -/
def isSliceStartCode (x : ℕ) : Bool := 0x100 ≤ x && x ≤ 0x18f

/-- `AVS2_IS_HEADER` -/
def isHeader (x : ℕ) : Bool := 0x1b0 ≤ x && x ≤ 0x1b7

/-- `avs2_find_start_code`: the position behind the first `00 00 01` that has a byte behind
    it. -/
def avs2FindStartCode (buf : List UInt8) : Option ℕ :=
  ((List.range buf.length).find? fun i =>
    buf[i]? = some 1 ∧ i + 1 < buf.length ∧ 1 < i ∧ buf[i - 1]? = some 0 ∧
      buf[i - 2]? = some 0).map (· + 1)

/-! ## The state -/

structure Avs2dNalu where
  header : ℕ
  length : ℕ
  dataPos : ℕ
  eof : Bool
  deriving DecidableEq, Repr

/-- What the splitter has of a frame, and where it is in the stream. -/
structure Nals where
  prevStartCode : ℕ := 0
  newSeqFlag : Bool := false
  newFrameFlag : Bool := false
  pNals : List Avs2dNalu := []
  /-- The contents of `p_header` and `p_stream`. -/
  header : List UInt8 := []
  stream : List UInt8 := []
  deriving DecidableEq, Repr

structure Avs2dCtx where
  nals : Nals := {}
  prevTailData : List UInt8 := [0, 0, 0, 0, 0, 0, 0]
  deriving DecidableEq, Repr

/-- A frame that is ready. -/
structure Frame where
  pNals : List Avs2dNalu
  header : List UInt8
  stream : List UInt8
  deriving DecidableEq, Repr

def Nals.frame (s : Nals) : Frame where
  pNals := s.pNals
  header := s.header
  stream := s.stream

/-- Change the last NAL unit; there is one. -/
def Nals.setLast (s : Nals) (f : Avs2dNalu → Avs2dNalu) : Option Nals :=
  match s.pNals.getLast? with
  | some nalu => some { s with pNals := s.pNals.dropLast ++ [f nalu] }
  | none => none

/-- Mark the last NAL unit as the end of the frame. -/
def Nals.markEof (s : Nals) : Option Nals := s.setLast fun nalu => { nalu with eof := true }

/-- The last NAL unit is the end of the frame. -/
def Nals.lastEof (s : Nals) : Bool := s.pNals.getLast?.elim false Avs2dNalu.eof

/-- `avs2_add_nalu_header` -/
def avs2AddNaluHeader (s : Nals) (header : ℕ) : Nals :=
  { s with pNals := s.pNals ++ [{ header, length := 0, dataPos := 0, eof := false }] }

/-- `store_nalu`. Of a start code that is neither of a slice nor of a header, there is no
    buffer for the data. -/
def storeNalu (s : Nals) (data : List UInt8) (startCode : ℕ) : Option Nals :=
  let grow (len : ℕ) : Option Nals := s.setLast fun nalu =>
    { nalu with
      length := nalu.length + data.length
      dataPos := if nalu.length = 0 then len else nalu.dataPos }
  if isSliceStartCode startCode then
    (grow s.stream.length).map fun s => { s with stream := s.stream ++ data }
  else if isHeader startCode then
    (grow s.header.length).map fun s => { s with header := s.header ++ data }
  else none

/-- `reset_nalu_buf` -/
def resetNaluBuf (c : Avs2dCtx) : Avs2dCtx where
  nals := { newSeqFlag := c.nals.newSeqFlag }
  prevTailData := List.replicate 7 0xff

/-! ## The splitter -/

/-- The NAL unit of a start code begins; `four` are the bytes of the code. -/
def beginNalu (s : Nals) (startCode : ℕ) (four : List UInt8) : Option Nals := do
  let s := if startCode ≠ userDataStartCode then avs2AddNaluHeader s startCode else s
  -- need to put slice start code to stream buffer
  let s ←
    (if isSliceStartCode startCode then storeNalu s four startCode
    else if startCode = videoSequenceEndCode then s.markEof
    else some s)
  some { s with prevStartCode := startCode }

/-- `avs2_split_nalu` once it has found the start code at `pos - 3`, with `remain` -/
def splitAtCode (s : Nals) (buf : List UInt8) (overRead pos : ℕ) : Option (Nals × ℕ) :=
  let startCode := startCodeOf (buf.getD pos 0)
  let left := buf.length - 1 - pos
  if !s.newSeqFlag then
    if startCode = videoSequenceStartCode then
      let s := avs2AddNaluHeader { s with pNals := [] } startCode
      some ({ s with newSeqFlag := true, prevStartCode := startCode }, left)
    else some (s, left)
  else do
    let naluLen := pos - 3
    let s ←
      (if isStartCode s.prevStartCode ∧ s.prevStartCode ≠ userDataStartCode ∧ overRead < naluLen then
        storeNalu s ((buf.take naluLen).drop overRead) s.prevStartCode
      else some s)
    if isSliceStartCode s.prevStartCode && !isSliceStartCode startCode then
      let s ← s.markEof
      some ({ s with newFrameFlag := true, prevStartCode := startCode }, left + 4)
    else
      let s ← beginNalu s startCode ((buf.drop (pos - 3)).take 4)
      some (s, left)

/-- `avs2_split_nalu`, with `remain` -/
def avs2SplitNalu (s : Nals) (buf : List UInt8) (overRead : ℕ) : Option (Nals × ℕ) :=
  match avs2FindStartCode buf with
  | some pos => splitAtCode s buf overRead pos
  | none =>
    if s.newSeqFlag ∧ isStartCode s.prevStartCode ∧ overRead < buf.length then
      (storeNalu s (buf.drop overRead) s.prevStartCode).map fun s => (s, 0)
    else some (s, 0)

/-- A frame is ready. -/
def Nals.ready (s : Nals) : Bool := s.newFrameFlag || 1 < s.pNals.length && s.lastEof

/-- The loop of `avs2d_parse_prepare_split`, on what is left of the packet: with what is
    left then, the last `remain`, and whether a frame is ready -/
def splitLoop : ℕ → Nals → List UInt8 → ℕ → Option (Nals × List UInt8 × ℕ × Bool)
  | 0, _, _, _ => none
  | fuel + 1, s, rest, remain =>
    -- `p_curdata < p_end`
    if rest.length < 2 then some (s, rest, remain, false)
    else do
      let (s, remain) ← avs2SplitNalu s rest 0
      let rest := rest.drop (rest.length - remain)
      if s.ready then some (s, rest, remain, true) else splitLoop fuel s rest remain

/-- `avs2d_parse_prepare_split`, with the position and whether a frame is ready -/
def avs2dParsePrepareSplit (c : Avs2dCtx) (data : List UInt8) (pos : ℕ) :
    Option (Avs2dCtx × ℕ × Bool) := do
  let pkt := data.drop pos
  let firstReadLength := min 4 pkt.length
  let prevTailData := c.prevTailData.take 3 ++ pkt.take firstReadLength ++
    c.prevTailData.drop (3 + firstReadLength)
  let (s, remain) ← avs2SplitNalu c.nals prevTailData 3
  if pos + firstReadLength < remain then none
  else
    let cur := pos + firstReadLength - remain
    let (s, rest, remain, valid) ← splitLoop (data.length + 1) s (data.drop cur) 0
    let kept := if 3 ≤ pkt.length then pkt.reverse.take 3 else List.replicate 3 0xff
    let prevTailData := if remain = 0 then kept ++ prevTailData.drop 3 else prevTailData
    some ({ nals := s, prevTailData }, data.length - rest.length, valid)

/-! ## The packets of a stream -/

/-- The frames of a packet from a position on, with at most `fuel` calls. -/
def feedPacket : ℕ → Avs2dCtx → List UInt8 → ℕ → Option (List Frame × Avs2dCtx)
  | 0, _, _, _ => none
  | fuel + 1, c, data, pos =>
    if data.length ≤ pos then some ([], c)
    else do
      let (c, pos, valid) ← avs2dParsePrepareSplit c data pos
      if valid then
        -- `avs2d_parse_stream`
        let (frames, c') ← feedPacket fuel (resetNaluBuf c) data pos
        some (c.nals.frame :: frames, c')
      else feedPacket fuel c data pos

/-- The frames of a stream that comes in packets. -/
def feed (c : Avs2dCtx) : List (List UInt8) → Option (List Frame × Avs2dCtx)
  | [] => some ([], c)
  | pkt :: pkts => do
    let (frames, c) ← feedPacket (pkt.length + 1) c pkt 0
    let (rest, c) ← feed c pkts
    some (frames ++ rest, c)

end Libmpp.Avs2d
