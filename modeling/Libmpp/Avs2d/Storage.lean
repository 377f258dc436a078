import Libmpp.Avs2d.Split
import Libmpp.Lib.AppendBuffer
import Libmpp.Lib.Machine

/-!
# Where the NAL units of an AVS2 frame are stored

The splitter of the AVS2 decoder in its memory: a table of NAL units that grows by twenty, and
a buffer each for headers and for slices that grow when they have to. A write to an entry that
is not there, to no buffer, or behind the size of one has no result.

`storeNalu` writes for the start code it has read last, but to the entry that was added last,
and into the buffer of the code. A code of user data adds no entry, yet what follows it is
stored when the packet has no code behind it; a code of no known kind has no buffer; and when
a frame is complete, its last entry is of the code before. The zeros behind the slices are
written without a look at the size of the buffer. Where a run meets none of this (`PrepareOk`),
the entries describe what was stored for them, and every call comes to its end
(`avs2dPrepare_stores`).

What was stored for an entry is kept apart (`units`), and is no part of the program. A packet
lies in a memory: the splitter can go back to bytes in front of it, of which seven are there.
An allocation that fails is left out, and so are buffers of 2³² bytes: lengths and sizes, `RK_U32`
in the code, are natural numbers.
-/

namespace Libmpp.Avs2d

/-! ## The memory -/

/-- `MAX_NALU_NUM` -/
def maxNaluNum : ℕ := 20

/-- A buffer with its allocated size. -/
structure Avs2dStreamBuf extends AppendBuffer UInt8 where
  size : ℕ

/-- The buffer, reallocated if `n` bytes more do not fit. -/
def Avs2dStreamBuf.grow (b : Avs2dStreamBuf) (addSize n : ℕ) : Avs2dStreamBuf :=
  if b.size < b.len + n then { b with size := b.size + addSize + n } else b

/-- `memcpy` behind the contents, within the size. -/
def Avs2dStreamBuf.write (b : Avs2dStreamBuf) (data : List UInt8) : Option Avs2dStreamBuf :=
  if b.len + data.length ≤ b.size then
    some { b with toAppendBuffer := b.toAppendBuffer.append data }
  else none

/-- What the splitter has of a frame. -/
structure NalStore where
  prevStartCode : ℕ := 0
  newSeqFlag : Bool := false
  newFrameFlag : Bool := false
  /-- `p_nals`, with all the entries that are allocated. -/
  pNals : List Avs2dNalu
  nalCnt : ℕ := 0
  header : Avs2dStreamBuf
  stream : Avs2dStreamBuf
  prevTailData : List UInt8 := [0, 0, 0, 0, 0, 0, 0]
  /-- The code of each entry, and what was stored for the code. -/
  units : List (ℕ × List UInt8) := []

variable (m : NalStore)

/-- The buffer for the data of a start code, if there is one. -/
def NalStore.bufOf (startCode : ℕ) : Option Avs2dStreamBuf :=
  if isSliceStartCode startCode then some m.stream
  else if isHeader startCode then some m.header
  else none

def NalStore.setBuf (startCode : ℕ) (b : Avs2dStreamBuf) : NalStore :=
  if isSliceStartCode startCode then { m with stream := b } else { m with header := b }

/-- `SZ_512K` for slices, and `SZ_1K` -/
def addSizeOf (startCode : ℕ) : ℕ := if isSliceStartCode startCode then 512 * 1024 else 1024

/-- Change the NAL unit that was added last; there is one. -/
def NalStore.setLast (f : Avs2dNalu → Avs2dNalu) : Option NalStore :=
  if 0 < m.nalCnt ∧ m.nalCnt ≤ m.pNals.length then
    some { m with pNals := m.pNals.modify (m.nalCnt - 1) f }
  else none

/-- The NAL unit that was added last, if there is one, is the end of the frame. -/
def NalStore.lastEof : Bool :=
  0 < m.nalCnt && (m.pNals[m.nalCnt - 1]?).elim false Avs2dNalu.eof

def blankNalu : Avs2dNalu := ⟨0, 0, 0, false⟩

/-- `avs2_add_nalu_header` -/
def NalStore.addNaluHeader (header : ℕ) : Option NalStore :=
  let pNals := if m.pNals.length < m.nalCnt + 1 then
    m.pNals ++ List.replicate maxNaluNum blankNalu else m.pNals
  if m.nalCnt < pNals.length then some { m with
    pNals := pNals.set m.nalCnt { header, length := 0, dataPos := 0, eof := false }
    nalCnt := m.nalCnt + 1
    units := m.units ++ [(header, [])] }
  else none

/-- What was stored for a code is stored for the last unit when it has the code. -/
def storedFor (units : List (ℕ × List UInt8)) (startCode : ℕ) (data : List UInt8) :
    List (ℕ × List UInt8) :=
  units.modify (units.length - 1) fun u =>
    if u.1 = startCode then (u.1, u.2 ++ data) else u

/-- `store_nalu` -/
def NalStore.storeNalu (data : List UInt8) (startCode : ℕ) : Option NalStore := do
  let b ← m.bufOf startCode
  let b := b.grow (addSizeOf startCode) data.length
  let m ← m.setLast fun nalu => { nalu with
    dataPos := if nalu.length = 0 then b.len else nalu.dataPos
    length := nalu.length + data.length }
  let b ← b.write data
  some { m.setBuf startCode b with units := storedFor m.units startCode data }

/-! ## The splitter -/

/-- The NAL unit of a start code begins; `four` are the bytes of the code. -/
def NalStore.beginNalu (startCode : ℕ) (four : List UInt8) : Option NalStore := do
  let m ← if startCode ≠ userDataStartCode then m.addNaluHeader startCode else some m
  -- need to put slice start code to stream buffer
  let m ←
    (if isSliceStartCode startCode then m.storeNalu four startCode
    else if startCode = videoSequenceEndCode then m.setLast fun nalu => { nalu with eof := true }
    else some m)
  some { m with prevStartCode := startCode }

/-- The data before a start code is stored, unless it is user data. -/
def NalStore.storeBefore (data : List UInt8) : Option NalStore :=
  if isStartCode m.prevStartCode ∧ m.prevStartCode ≠ userDataStartCode ∧ data ≠ [] then
    m.storeNalu data m.prevStartCode
  else some m

/-- `avs2_split_nalu` once it has found the start code at `pos - 3`, with `remain` -/
def NalStore.splitAtCode (buf : List UInt8) (overRead pos : ℕ) : Option (NalStore × ℕ) :=
  let startCode := startCodeOf (buf.getD pos 0)
  let left := buf.length - 1 - pos
  if !m.newSeqFlag then
    if startCode = videoSequenceStartCode then do
      let m ← { m with nalCnt := 0, units := [] : NalStore }.addNaluHeader startCode
      some ({ m with newSeqFlag := true, prevStartCode := startCode }, left)
    else some (m, left)
  else do
    let m ← m.storeBefore ((buf.take (pos - 3)).drop overRead)
    if isSliceStartCode m.prevStartCode && !isSliceStartCode startCode then
      let m ← m.setLast fun nalu => { nalu with eof := true }
      some ({ m with newFrameFlag := true, prevStartCode := startCode }, left + 4)
    else
      let m ← m.beginNalu startCode ((buf.drop (pos - 3)).take 4)
      some (m, left)

/-- `avs2_split_nalu`, with `remain` -/
def NalStore.avs2SplitNalu (buf : List UInt8) (overRead : ℕ) : Option (NalStore × ℕ) :=
  match avs2FindStartCode buf with
  | some pos => m.splitAtCode buf overRead pos
  | none =>
    if m.newSeqFlag ∧ isStartCode m.prevStartCode ∧ buf.drop overRead ≠ [] then
      (m.storeNalu (buf.drop overRead) m.prevStartCode).map fun m => (m, 0)
    else some (m, 0)

/-- The loop of both ways to prepare, on what is left of the packet: with what is left then, the
    last `remain`, and whether a frame is ready -/
def prepareLoop (ready : NalStore → List UInt8 → Bool) :
    ℕ → NalStore → List UInt8 → ℕ → Option (NalStore × List UInt8 × ℕ × Bool)
  | 0, _, _, _ => none
  | fuel + 1, m, rest, remain =>
    -- `p_curdata < p_end`
    if rest.length < 2 then some (m, rest, remain, false)
    else do
      let (m, remain) ← m.avs2SplitNalu rest 0
      let rest := rest.drop (rest.length - remain)
      if ready m rest then some (m, rest, remain, true) else prepareLoop ready fuel m rest remain

/-- A frame is ready, when the packets are complete frames. -/
def readyFast (rest : List UInt8) : Bool :=
  m.newFrameFlag || m.lastEof || decide (rest.length < 2)

/-- A frame is ready, when the packets are not. -/
def readySplit (_ : List UInt8) : Bool :=
  m.newFrameFlag || decide (1 < m.nalCnt) && m.lastEof

/-- A packet at a position of a memory. -/
structure NalPacket where
  mem : List UInt8
  pos : ℕ
  pos_le : 7 ≤ pos
  pos_lt : pos < mem.length

/-- The bytes of the packet. -/
def NalPacket.data (p : NalPacket) : List UInt8 := p.mem.drop p.pos

/-- `avs2d_parse_prepare_fast`, with whether a frame is ready -/
def avs2dParsePrepareFast (p : NalPacket) : Option (NalStore × Bool) :=
  (prepareLoop readyFast (p.data.length + 1) m p.data 0).map fun (m, _, _, valid) => (m, valid)

/-- The kept bytes, and the first ones of the packet behind them -/
def checkerBuffer (p : NalPacket) : List UInt8 :=
  m.prevTailData.take 3 ++ p.data.take 4 ++ m.prevTailData.drop (3 + min 4 p.data.length)

/-- What is left of the packet, when `remain` bytes of the checker buffer are. -/
def NalPacket.from (p : NalPacket) (remain : ℕ) : List UInt8 :=
  p.mem.drop (p.pos + min 4 p.data.length - remain)

/-- `avs2d_parse_prepare_split`, with whether a frame is ready -/
def avs2dPrepareSplit (p : NalPacket) : Option (NalStore × Bool) := do
  let (m', remain) ← m.avs2SplitNalu (checkerBuffer m p) 3
  let (m', _, remain, valid) ← prepareLoop readySplit (p.mem.length + 1) m' (p.from remain) 0
  let kept := if 3 ≤ p.data.length then p.data.reverse.take 3 else List.replicate 3 0xff
  let tail := (checkerBuffer m p).drop 3
  some ({ m' with prevTailData := if remain = 0 then kept ++ tail else checkerBuffer m p }, valid)

/-- `MPP_ALIGN(p_stream->len + 32, 16)` -/
def paddedLen : ℕ := (m.stream.len + 32 + 15) / 16 * 16

/-- What is prepared of a packet, and whether a frame is ready -/
def prepared (splitParse : Bool) (m : NalStore) (p : NalPacket) : Option (NalStore × Bool) :=
  if splitParse then avs2dPrepareSplit m p else avs2dParsePrepareFast m p

/-- `avs2d_prepare` with a packet that is not empty, and whether a frame is ready: there are
    zeros behind the slices then, within the size of the buffer. -/
def avs2dPrepare (splitParse : Bool) (m : NalStore) (p : NalPacket) : Option (NalStore × Bool) := do
  let (m, valid) ← prepared splitParse m p
  if !valid then some (m, false)
  else do
    let stream ← m.stream.write (List.replicate (paddedLen m - m.stream.len) 0)
    some ({ m with
      stream := { stream with len := 0 }
      header := { m.header with len := 0 } }, true)

/-- `reset_nalu_buf`, behind the parser and on a reset -/
def NalStore.resetNaluBuf : NalStore where
  newSeqFlag := m.newSeqFlag
  pNals := m.pNals.map fun _ => blankNalu
  header := { cell := fun _ => 0, len := 0, size := m.header.size }
  stream := { cell := fun _ => 0, len := 0, size := m.stream.size }
  prevTailData := List.replicate 7 0xff

/-- `avs2d_init` -/
def avs2dInit : NalStore where
  pNals := List.replicate maxNaluNum blankNalu
  header := { cell := fun _ => 0, len := 0, size := 2 * 1024 }
  stream := { cell := fun _ => 0, len := 0, size := 2 * 1024 * 1024 }

inductive NalOp
  | prepare (p : NalPacket)
  | reset

/-- The calls: a packet is prepared, and parsed if a frame is ready then; `avs2d_reset`. -/
def nalMachine (splitParse : Bool) : Machine NalStore NalOp where
  init m := m = avs2dInit
  step m op m' := match op with
    | .prepare p => ∃ r, avs2dPrepare splitParse m p = some r ∧
        m' = if r.2 then r.1.resetNaluBuf else r.1
    | .reset => m' = { m.resetNaluBuf with newSeqFlag := false }

end Libmpp.Avs2d
