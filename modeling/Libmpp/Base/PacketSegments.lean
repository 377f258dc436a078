import Libmpp.Base.Packet

/-!
# The segments of a packet

The functions of `mpp_packet.c` that change the segments of a packet. Up to
`MPP_PKT_SEG_CNT_DEFAULT` segments stand in an array of the packet, more in an allocated one,
and each points to the next. So the pointers are set anew whenever the segments move.

* The answers of the allocator are inputs, as for the packet itself. An array whose number of
  entries wraps to zero is not allocated (`Heap.segAlloc`).
* `mpp_packet_append` also copies the data, which the segments do not depend on; only the
  lengths are kept here.

A list of segments stays as it should (`segments_listed`), where what is appended has no gaps,
no packet is appended or copied to itself, and there is memory for a copy.
-/

namespace Libmpp.Base

/-! ## The functions -/

/-- What is allocated for the segments of a packet when they need more room. -/
def Heap.segAlloc (h : Heap) (packet : ℕ) (alloc : Option ℕ) : Option ℕ :=
  (h.packets packet).bind fun p => if 2 * p.segmentBufCnt < 2 ^ 32 then alloc else none

/-- `mpp_packet_add_segment_info`, with the size of the array as it wraps -/
def addSegmentInfo (packet : ℕ) (type : ℤ) (offset len : BitVec 32) (alloc : Option ℕ)
    (h : Heap) : MppRet × Heap :=
  mppPacketAddSegmentInfo packet type offset len (h.segAlloc packet alloc) h

/-- `mpp_packet_reset_segment` -/
def mppPacketResetSegment (packet : ℕ) (h : Heap) : Heap :=
  match h.packets packet with
  | none => h
  | some p =>
    (forSome p.segmentsExt Heap.freeSegs h).store packet
      { p with
        segmentNb := 0, segmentBufCnt := segCntDefault
        segmentsDef := Vector.replicate _ zeroSeg, segments := .null, segmentsExt := none }

/-- The `n` segments from a pointer on -/
def Heap.loadSegs (h : Heap) (segs : SegPtr) (n : ℕ) : List MppPktSeg :=
  (List.range n).map fun i => (h.seg (segs.add i)).getD zeroSeg

/-- `memcpy` to the array of a packet -/
def copySegs (segs : List MppPktSeg) (def_ : Vector MppPktSeg segCntDefault) :
    Vector MppPktSeg segCntDefault :=
  def_.mapFinIdx fun i s _ => segs[i]?.getD s

/-- The first `n` segments from a pointer on point to the next ones. -/
def Heap.relink (segs : SegPtr) (n : ℕ) (h : Heap) : Heap :=
  (List.range n).foldl
    (fun h i => h.modifySeg (segs.add i) fun s => { s with next := segs.add (i + 1) }) h

/-- `mpp_packet_set_segment_nb` -/
def mppPacketSetSegmentNb (packet segmentNb : ℕ) (h : Heap) : Heap :=
  match h.packets packet with
  | none => h
  | some p =>
    if segmentNb ≥ p.segmentNb ∨ p.segments = .null then h
    else if segmentNb = 0 then mppPacketResetSegment packet h
    else
      let p := { p with segmentNb }
      -- drop the later segments, and move to the array of the packet when there is room
      let (segs, h) :=
        if segmentNb ≤ segCntDefault then
          match p.segmentsExt with
          | some a =>
            (.segmentsDef packet 0, (h.freeSegs a).store packet
              { p with
                segmentsDef := copySegs (h.loadSegs p.segments segmentNb) p.segmentsDef
                segments := .segmentsDef packet 0, segmentsExt := none
                segmentBufCnt := segCntDefault })
          | none => (p.segments, h.store packet { p with segmentBufCnt := segCntDefault })
        else (p.segments, h.store packet p)
      (h.relink segs (segmentNb - 1)).modifySeg (segs.add (segmentNb - 1))
        fun s => { s with next := .null }

/-- `mpp_packet_copy_segment_info`; `alloc` is what `mpp_calloc` hands out. There is no result
    when it writes to the null pointer: a failure of `mpp_calloc` is only asserted. -/
def mppPacketCopySegmentInfo (dst src : ℕ) (alloc : Option ℕ) (h : Heap) : Option Heap :=
  let h := mppPacketResetSegment dst h
  match h.packets dst, h.packets src with
  | some dstImpl, some srcImpl =>
    if srcImpl.segmentNb = 0 then some h
    else
      let segmentNb := srcImpl.segmentNb
      let segs := h.loadSegs srcImpl.segments segmentNb
      let dstImpl := { dstImpl with segmentNb, segmentBufCnt := srcImpl.segmentBufCnt }
      if segmentNb ≤ segCntDefault then
        some <| (h.store dst
          { dstImpl with
            segmentsDef := copySegs segs dstImpl.segmentsDef
            segments := .segmentsDef dst 0 }).relink (.segmentsDef dst 0) (segmentNb - 1)
      else
        let buf := segs ++ List.replicate (srcImpl.segmentBufCnt - segmentNb) zeroSeg
        alloc.map fun a =>
          (({ h with segs := Function.update h.segs a (some buf) }.acquire (.segments a)).store
            dst { dstImpl with segmentsExt := some a, segments := .segmentsExt a 0 }).relink
              (.segmentsExt a 0) (segmentNb - 1)
  | _, _ => some h

/-- The loop of `mpp_packet_append`, with what the calls in it return. There is no result
    when it does not end, or when it reads behind the array. -/
def appendLoop (dst src : ℕ) (allocs : ℕ → Option ℕ) :
    ℕ → ℕ → SegPtr → BitVec 32 → Heap → Option (List MppRet × Heap)
  | 0, _, _, _, _ => none
  | fuel + 1, i, segs, offset, h =>
    match h.packets src with
    | none => none
    | some srcImpl =>
      if i < srcImpl.segmentNb then do
        let seg ← h.seg segs
        let (ret, h) := addSegmentInfo dst seg.type offset seg.len (allocs i) h
        let (rets, h) ← appendLoop dst src allocs fuel (i + 1) (segs.add 1) (offset + seg.len) h
        some (ret :: rets, h)
      else some ([], h)

/-- `mpp_packet_append`, as far as the segments and the length go -/
def mppPacketAppend (dst src : ℕ) (allocs : ℕ → Option ℕ) (fuel : ℕ) (h : Heap) :
    Option (List MppRet × Heap) :=
  match h.packets dst, h.packets src with
  | some dstImpl, some srcImpl => do
    let (rets, h) ←
      appendLoop dst src allocs fuel 0 srcImpl.segments (BitVec.ofNat 32 dstImpl.length) h
    some (rets, { h with
      packets := Function.update h.packets dst <| (h.packets dst).map fun p =>
        { p with length := p.length + srcImpl.length } })
  | _, _ => some ([], h)

/-! ## What the segments should be -/

/-- The type, the offset and the length of a segment -/
abbrev SegInfo := ℤ × BitVec 32 × BitVec 32

/-- The segments along the next pointers, at most `n`, up to the last one -/
def Heap.chain (h : Heap) : ℕ → SegPtr → Option (List (SegPtr × MppPktSeg))
  | _, .null => some []
  | 0, _ => none
  | n + 1, ptr => do
    let s ← h.seg ptr
    let rest ← h.chain n s.next
    some ((ptr, s) :: rest)

/-- The pointer is into the storage of the packet. -/
def MppPacketImpl.Stores (p : MppPacketImpl) (packet : ℕ) : SegPtr → Prop
  | .null => False
  | .segmentsDef j i => j = packet ∧ i < segCntDefault
  | .segmentsExt a i => p.segmentsExt = some a ∧ i < p.segmentBufCnt

/-- The next pointers lead through the segments of the packet, which are in its own storage,
    numbered in their order, with the infos `infos`; and they end there. -/
structure SegmentsListed (h : Heap) (packet : ℕ) (p : MppPacketImpl) (infos : List SegInfo) :
    Prop where
  room : p.segmentNb ≤ p.segmentBufCnt
  nb : p.segmentNb = infos.length
  chain : ∃ l, h.chain p.segmentNb p.segments = some l ∧ l.length = p.segmentNb ∧
    ∀ (k : ℕ) ptr s, l[k]? = some (ptr, s) →
      p.Stores packet ptr ∧ s.index = k ∧ infos[k]? = some (s.type, s.offset, s.len)

/-- An operation on packets, with the answers of the allocator -/
inductive SegOp
  | add (packet : ℕ) (type : ℤ) (offset len : BitVec 32) (alloc : Option ℕ)
  | setNb (packet segmentNb : ℕ)
  | copy (dst src : ℕ) (alloc : Option ℕ)
  | append (dst src : ℕ) (allocs : ℕ → Option ℕ) (fuel : ℕ)

/-- The infos of the packets, as they should be -/
abbrev SegInfos := ℕ → List SegInfo

/-- The infos that are added, of those for which a call has returned `MPP_OK` -/
def added (infos : List SegInfo) (rets : List MppRet) : List SegInfo :=
  ((infos.zip rets).filter fun v => v.2 = mppOk).map Prod.fst

/-- The infos shifted by a length -/
def shifted (length : ℕ) (infos : List SegInfo) : List SegInfo :=
  infos.map fun v => (v.1, v.2.1 + BitVec.ofNat 32 length, v.2.2)

/-- An operation, with what the infos should be after it -/
def SegOp.run : SegOp → Heap × SegInfos → Option (Heap × SegInfos)
  | .add packet type offset len alloc, (h, infos) =>
    let (ret, h') := addSegmentInfo packet type offset len alloc h
    some (h', Function.update infos packet
      (infos packet ++ added [(type, offset, len)] [ret]))
  | .setNb packet segmentNb, (h, infos) =>
    some (mppPacketSetSegmentNb packet segmentNb h,
      Function.update infos packet ((infos packet).take segmentNb))
  | .copy dst src alloc, (h, infos) => do
    let h' ← mppPacketCopySegmentInfo dst src alloc h
    some (h', Function.update infos dst (infos src))
  | .append dst src allocs fuel, (h, infos) => do
    let dstImpl ← h.packets dst
    let (rets, h') ← mppPacketAppend dst src allocs fuel h
    some (h', Function.update infos dst
      (infos dst ++ added (shifted dstImpl.length (infos src)) rets))

/-- A sequence of operations -/
def runOps : List SegOp → Heap × SegInfos → Option (Heap × SegInfos)
  | [], st => some st
  | op :: ops, st => (op.run st).bind (runOps ops)

/-- The packet has no segments, as `mpp_packet_new` leaves it. -/
def MppPacketImpl.Unsegmented (p : MppPacketImpl) : Prop :=
  p.segmentNb = 0 ∧ p.segmentBufCnt = segCntDefault ∧ p.segmentsExt = none ∧ p.segments = .null

/-! ## When the operations do as they should -/

/-- The allocator hands out an array that is not in use, or the one that the packet gives
    back. -/
def Heap.Hands (h : Heap) (packet a : ℕ) : Prop :=
  h.segs a = none ∨ ∃ p, h.packets packet = some p ∧ p.segmentsExt = some a

/-- The segments have no gaps: each starts where the one before ends, from `offset` on. -/
def Gapless : BitVec 32 → List SegInfo → Prop
  | _, [] => True
  | offset, (_, off, len) :: infos => off = offset ∧ Gapless (offset + len) infos

/-- The packets are there; only one without segments is copied or appended to itself; the
    allocator hands out free arrays, and does not fail in a copy that needs one; and what is
    appended has no gaps. -/
def SegOp.Fits : SegOp → Heap × SegInfos → Prop
  | .add packet _ _ _ alloc, (h, _) =>
    (h.packets packet).isSome ∧ ∀ a, alloc = some a → h.Hands packet a
  | .setNb packet _, (h, _) => (h.packets packet).isSome
  | .copy dst src alloc, (h, infos) =>
    (h.packets dst).isSome ∧ (h.packets src).isSome ∧ (dst = src → infos src = []) ∧
      (∀ a, alloc = some a → h.Hands dst a) ∧
      (segCntDefault < (infos src).length → alloc.isSome)
  | .append dst src allocs fuel, (h, infos) =>
    (h.packets dst).isSome ∧ (h.packets src).isSome ∧ (dst = src → infos src = []) ∧
      (∀ i a, allocs i = some a → h.Hands dst a) ∧ (infos src).length < fuel ∧
      Gapless 0 (infos src)

/-- Every operation of the sequence fits where it comes. -/
def RunFits : List SegOp → Heap × SegInfos → Prop
  | [], _ => True
  | op :: ops, st => op.Fits st ∧ ∀ st', op.run st = some st' → RunFits ops st'

end Libmpp.Base
