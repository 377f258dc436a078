import Libmpp.Base.Err
import Libmpp.Lib.Ledger

/-!
# Packets

The packet of the interface (`mpp_packet.c`), as far as its copying and its release go. A
packet points to data, holds references to a buffer and to meta data, and describes its
segments in an array of its own or, when there are more, in an allocated one.

* Memory is explicit: the packets in use of the pool, the blocks of `mpp_malloc`, the
  arrays of segments, the buffers and the memory of the caller. What is read through a
  pointer to something released is `none`.
* A ledger counts what the packets acquire and release: packets of the pool, blocks,
  arrays, references, and the call of the release callback, which is due once for each
  packet that has been given one.
* The answers of the allocator are inputs: the packet or the block it hands out, if any.
* A packet passed in is one of the pool, or the check of its name fails.
-/

namespace Libmpp.Base

/-- A pointer to data: into a block of `mpp_malloc`, a buffer, or memory of the caller -/
inductive DataPtr
  | null
  | block (a offset : ℕ)
  | buffer (b offset : ℕ)
  | user (u offset : ℕ)
  deriving DecidableEq, Repr

/-- A pointer to a segment, in the array of a packet or in an allocated one -/
inductive SegPtr
  | null
  | segmentsDef (packet i : ℕ)
  | segmentsExt (a i : ℕ)
  deriving DecidableEq, Repr

structure MppPktSeg where
  index : ℤ
  type : ℤ
  offset : BitVec 32
  len : BitVec 32
  next : SegPtr
  deriving DecidableEq, Repr

/-- A segment of zeros, as `memset` and `mpp_calloc` leave it -/
def zeroSeg : MppPktSeg := { index := 0, type := 0, offset := 0, len := 0, next := .null }

/-- `MPP_PKT_SEG_CNT_DEFAULT` -/
abbrev segCntDefault : ℕ := 8

/-- `MPP_PACKET_FLAG_INTERNAL` -/
abbrev flagInternal : BitVec 32 := 4

/-- `MppPacketImpl`, less its name -/
structure MppPacketImpl where
  data : DataPtr
  pos : DataPtr
  size : ℕ
  length : ℕ
  pts : ℤ
  dts : ℤ
  status : BitVec 32
  flag : BitVec 32
  buffer : Option ℕ
  metaData : Option ℕ
  task : Option ℕ
  segmentNb : ℕ
  segmentBufCnt : ℕ
  segmentsDef : Vector MppPktSeg segCntDefault
  segmentsExt : Option ℕ
  segments : SegPtr
  release : Option ℕ
  releaseCtx : ℕ
  releaseArg : ℕ
  deriving DecidableEq, Repr

/-- `p->flag & MPP_PACKET_FLAG_INTERNAL` -/
def MppPacketImpl.Internal (p : MppPacketImpl) : Prop := p.flag &&& flagInternal ≠ 0

instance (p : MppPacketImpl) : Decidable p.Internal :=
  inferInstanceAs (Decidable (p.flag &&& flagInternal ≠ 0))

/-- What a packet has to release -/
inductive Resource
  | packet (packet : ℕ)
  | data (data : DataPtr)
  | segments (a : ℕ)
  | buffer (b : ℕ)
  | metaData (m : ℕ)
  | callback (release ctx arg : ℕ)
  deriving DecidableEq, Repr

/-- A buffer, alive while references to it are held -/
structure BufferRef where
  refCount : ℕ
  bytes : List UInt8
  deriving DecidableEq, Repr

/-- What the packets refer to -/
@[ext]
structure Heap where
  packets : ℕ → Option MppPacketImpl
  blocks : ℕ → Option (List UInt8)
  segs : ℕ → Option (List MppPktSeg)
  buffers : ℕ → BufferRef
  metas : ℕ → ℕ
  user : ℕ → List UInt8
  ledger : Ledger Resource

/-- What `mpp_malloc` hands out: a block, with what happens to stand in it -/
structure Malloc where
  addr : ℕ
  bytes : List UInt8

namespace Heap

/-! ## Reading -/

/-- `n` bytes from `offset`, if they are there -/
def range (bytes : List UInt8) (offset n : ℕ) : Option (List UInt8) :=
  if offset + n ≤ bytes.length then some ((bytes.drop offset).take n) else none

/-- The `n` bytes behind a pointer -/
def read (h : Heap) : DataPtr → ℕ → Option (List UInt8)
  | _, 0 => some []
  | .null, _ + 1 => none
  | .block a offset, n + 1 => (h.blocks a).bind fun bytes => range bytes offset (n + 1)
  | .buffer b offset, n + 1 =>
    if 0 < (h.buffers b).refCount then range (h.buffers b).bytes offset (n + 1) else none
  | .user u offset, n + 1 => range (h.user u) offset (n + 1)

/-- The segment behind a pointer -/
def seg (h : Heap) : SegPtr → Option MppPktSeg
  | .null => none
  | .segmentsDef packet i => (h.packets packet).bind fun p => p.segmentsDef[i]?
  | .segmentsExt a i => (h.segs a).bind fun segs => segs[i]?

/-- The infos of the `n` segments of the list that starts at a pointer -/
def segList (h : Heap) : ℕ → SegPtr → Option (List (ℤ × ℤ × BitVec 32 × BitVec 32))
  | 0, _ => some []
  | n + 1, ptr =>
    (h.seg ptr).bind fun s =>
      (h.segList n s.next).map fun l => (s.index, s.type, s.offset, s.len) :: l

/-- The pointers along the `n` segments of the list that starts at a pointer -/
def segPath (h : Heap) : ℕ → SegPtr → List SegPtr
  | 0, _ => []
  | n + 1, ptr =>
    match h.seg ptr with
    | none => [ptr]
    | some s => ptr :: h.segPath n s.next

/-- The valid data of a packet -/
def data (h : Heap) (p : MppPacketImpl) : Option (List UInt8) := h.read p.pos p.length

/-- The segment infos of a packet -/
def segInfos (h : Heap) (p : MppPacketImpl) : Option (List (ℤ × ℤ × BitVec 32 × BitVec 32)) :=
  h.segList p.segmentNb p.segments

/-! ## Acquiring and releasing -/

def acquire (r : Resource) (h : Heap) : Heap := { h with ledger := h.ledger.acquire {r} }

def release (r : Resource) (h : Heap) : Heap := { h with ledger := h.ledger.release {r} }

/-- `mpp_buffer_inc_ref` -/
def bufferIncRef (b : ℕ) (h : Heap) : Heap :=
  { h with
    buffers := Function.update h.buffers b
      { h.buffers b with refCount := (h.buffers b).refCount + 1 } }.acquire (.buffer b)

/-- `mpp_buffer_put` -/
def bufferPut (b : ℕ) (h : Heap) : Heap :=
  { h with
    buffers := Function.update h.buffers b
      { h.buffers b with refCount := (h.buffers b).refCount - 1 } }.release (.buffer b)

/-- `mpp_meta_inc_ref` -/
def metaIncRef (m : ℕ) (h : Heap) : Heap :=
  { h with metas := Function.update h.metas m (h.metas m + 1) }.acquire (.metaData m)

/-- `mpp_meta_put` -/
def metaPut (m : ℕ) (h : Heap) : Heap :=
  { h with metas := Function.update h.metas m (h.metas m - 1) }.release (.metaData m)

/-- `mpp_free` of data, which is a block from its start on -/
def freeData (data : DataPtr) (h : Heap) : Heap :=
  match data with
  | .block a 0 => { h with blocks := Function.update h.blocks a none }.release (.data data)
  | _ => h.release (.data data)

/-- `mpp_free` of an array of segments -/
def freeSegs (a : ℕ) (h : Heap) : Heap :=
  { h with segs := Function.update h.segs a none }.release (.segments a)

/-- `mpp_mem_pool_put` -/
def poolPut (packet : ℕ) (h : Heap) : Heap :=
  { h with packets := Function.update h.packets packet none }.release (.packet packet)

/-- Store a packet. -/
def store (packet : ℕ) (p : MppPacketImpl) (h : Heap) : Heap :=
  { h with packets := Function.update h.packets packet (some p) }

end Heap

/-- Do something for a pointer that is not `NULL`. -/
def forSome {α : Type*} (x : Option α) (f : α → Heap → Heap) (h : Heap) : Heap :=
  match x with
  | none => h
  | some a => f a h

/-! ## The functions of the packet -/

/-- `mpp_packet_new`: a packet of the pool, zero but for its name and `segment_buf_cnt` -/
def newPacket : MppPacketImpl :=
  { data := .null, pos := .null, size := 0, length := 0, pts := 0, dts := 0, status := 0,
    flag := 0, buffer := none, metaData := none, task := none, segmentNb := 0,
    segmentBufCnt := segCntDefault, segmentsDef := Vector.replicate _ zeroSeg,
    segmentsExt := none, segments := .null, release := none, releaseCtx := 0, releaseArg := 0 }

/-- `mpp_packet_new`; `pool` is the packet the pool hands out -/
def mppPacketNew (pool : Option ℕ) (h : Heap) : MppRet × Option ℕ × Heap :=
  match pool with
  | none => (mppErrNullPtr, none, h)
  | some packet => (mppOk, some packet, (h.store packet newPacket).acquire (.packet packet))

/-- `mpp_packet_init` -/
def mppPacketInit (pool : Option ℕ) (data : DataPtr) (size : ℕ) (h : Heap) :
    MppRet × Option ℕ × Heap :=
  match mppPacketNew pool h with
  | (ret, none, h) => (ret, none, h)
  | (_, some packet, h) =>
    (mppOk, some packet,
      h.store packet
        { newPacket with data := data, pos := data, size := size, length := size })

/-- `mpp_packet_deinit` -/
def mppPacketDeinit (packet : ℕ) (h : Heap) : MppRet × Heap :=
  match h.packets packet with
  | none => (mppErrNullPtr, h)
  | some p =>
    let h := forSome p.buffer Heap.bufferPut h
    let h := if p.Internal then h.freeData p.data else h
    let h := forSome p.metaData Heap.metaPut h
    let h := forSome p.segmentsExt Heap.freeSegs h
    let h := forSome p.release (fun f => Heap.release (.callback f p.releaseCtx p.releaseArg)) h
    (mppOk, h.poolPut packet)

/-- More room for the segments, by `mpp_calloc` or `mpp_realloc`, with those there are linked
    anew -/
def growSegments (packet : ℕ) (p : MppPacketImpl) (a : ℕ) (h : Heap) : Heap :=
  let cnt := 2 * p.segmentBufCnt
  let old := (p.segmentsExt.bind h.segs).getD p.segmentsDef.toList
  let h := forSome p.segmentsExt Heap.freeSegs h
  let buf := (old ++ List.replicate (cnt - old.length) zeroSeg).mapIdx fun i s =>
    if i < p.segmentNb - 1 then { s with next := .segmentsExt a (i + 1) } else s
  { h with segs := Function.update h.segs a (some buf) }.acquire (.segments a) |>.store packet
    { p with segmentsExt := some a, segments := .segmentsExt a 0, segmentBufCnt := cnt }

/-- Write the segment behind a pointer. -/
def Heap.modifySeg (ptr : SegPtr) (f : MppPktSeg → MppPktSeg) (h : Heap) : Heap :=
  match ptr with
  | .null => h
  | .segmentsDef packet i =>
    { h with
      packets := Function.update h.packets packet <| (h.packets packet).map fun p =>
        { p with segmentsDef := p.segmentsDef.mapFinIdx fun j s _ => if j = i then f s else s } }
  | .segmentsExt a i =>
    { h with segs := Function.update h.segs a <| (h.segs a).map fun segs => segs.modify i f }

/-- The segment `n` places further in an array -/
def SegPtr.add (n : ℕ) : SegPtr → SegPtr
  | .null => .null
  | .segmentsDef packet i => .segmentsDef packet (i + n)
  | .segmentsExt a i => .segmentsExt a (i + n)

/-- `mpp_packet_add_segment_info`; `alloc` is what the allocator hands out -/
def mppPacketAddSegmentInfo (packet : ℕ) (type : ℤ) (offset len : BitVec 32) (alloc : Option ℕ)
    (h : Heap) : MppRet × Heap :=
  match h.packets packet with
  | none => (mppErrUnknow, h)
  | some p =>
    let add (ptr : SegPtr) (h : Heap) : MppRet × Heap :=
      let seg : MppPktSeg :=
        { index := p.segmentNb, type := type, offset := offset, len := len, next := .null }
      let h := h.modifySeg (ptr.add p.segmentNb) fun _ => seg
      let h := if p.segmentNb = 0 then h else
        h.modifySeg (ptr.add (p.segmentNb - 1)) fun s => { s with next := ptr.add p.segmentNb }
      (mppOk, { h with
        packets := Function.update h.packets packet <| (h.packets packet).map fun p =>
          { p with segmentNb := p.segmentNb + 1 } })
    if p.segmentNb ≥ p.segmentBufCnt then
      match alloc with
      | none => (mppNok, h)
      | some a => add (.segmentsExt a 0) (growSegments packet p a h)
    else
      match p.segments with
      | .null =>
        add (.segmentsDef packet 0) (h.store packet { p with segments := .segmentsDef packet 0 })
      | ptr => add ptr h

/-- What a block handed out holds once the valid data is copied to it, and zeros are put
    after them; without data it is left as it is. -/
def Heap.copyBytes (h : Heap) (srcImpl : MppPacketImpl) (m : Malloc) : List UInt8 :=
  match srcImpl.length with
  | 0 => m.bytes
  | n + 1 => (h.read srcImpl.pos (n + 1)).getD [] ++ List.replicate 256 0

/-- `mpp_packet_copy_init`; `pool` and `malloc` are what the allocators hand out -/
def mppPacketCopyInit (src : ℕ) (pool : Option ℕ) (malloc : Option Malloc) (h : Heap) :
    MppRet × Option ℕ × Heap :=
  match h.packets src with
  | none => (mppErrUnknow, none, h)
  | some srcImpl =>
    match mppPacketNew pool h with
    | (ret, none, h) => (ret, none, h)
    | (_, some pkt, h) =>
      -- `memcpy` of the whole structure, pointers and flags as they are
      let h := h.store pkt srcImpl
      let h := forSome srcImpl.metaData Heap.metaIncRef h
      match srcImpl.buffer with
      | some b => (mppOk, some pkt, h.bufferIncRef b)
      | none =>
        match malloc with
        | none => (mppErrMalloc, none, (mppPacketDeinit pkt h).2)
        | some m =>
          let pos := .block m.addr 0
          let bytes := h.copyBytes srcImpl m
          let h := { h with blocks := Function.update h.blocks m.addr (some bytes) }
          (mppOk, some pkt,
            (h.acquire (.data pos)).store pkt
              { srcImpl with
                data := pos, pos := pos, size := srcImpl.length, length := srcImpl.length,
                flag := srcImpl.flag ||| flagInternal })

end Libmpp.Base
