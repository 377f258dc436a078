import Mathlib

/-!
# Splitting a stream into frames

The splitter of the H.265 decoder (`h265d_parser.c`): the packets of a byte stream may end
anywhere, and `h265dSplitFrame` puts the frames together from them. It is called with what
is left of a packet and says how many bytes it has used; `feed` is its caller, which calls
it until the packet is used up.

A frame ends where the first NAL unit of the next one begins, which `hevcFindFrameEnd` only
knows five bytes later: these are then read a second time, or, where they have come with an
earlier packet, are kept in the buffer (`overread`).

The buffer is a memory of its own; what it takes is allocated. The timestamps are left out,
and so is `state`, which nothing reads. Where the source copies the padding bytes behind a
packet along with its last bytes, they are no part of any frame, and are left out too.
-/

namespace Libmpp.H265d

/-- `SplitContext` -/
structure SplitContext where
  buffer : ℕ → UInt8 := fun _ => 0
  index : ℕ := 0
  lastIndex : ℕ := 0
  frameStartFound : Bool := false
  /-- The bytes of the next frame that are in the buffer already. -/
  overread : ℕ := 0
  /-- Where they are. -/
  overreadIndex : ℕ := 0
  /-- The last eight bytes. -/
  state64 : ℕ := 0
  eos : Bool := false

/-! ## The end of a frame -/

/-- `(state64 << 8) | buf[i]` -/
def pushByte (state64 : ℕ) (b : UInt8) : ℕ := (state64 * 256 + b.toNat) % 2 ^ 64

/-- The three bytes of a start code, before the header of two bytes and the byte read last. -/
def startCode (state64 : ℕ) : ℕ := state64 / 2 ^ 24 % 2 ^ 24

/-- `nut`, the type of the NAL unit behind it -/
def nutOf (state64 : ℕ) : ℕ := state64 / 2 ^ 17 % 2 ^ 6

/-- `layer_id` -/
def layerIdOf (state64 : ℕ) : ℕ :=
  state64 / 2 ^ 16 % 2 * 2 ^ 5 + state64 / 2 ^ 8 % 2 ^ 8 / 2 ^ 3

/-- The types that begin an access unit: the parameter sets and the delimiter, prefix SEI,
    and two ranges of reserved and unspecified ones. -/
def beginsAccessUnit (nut : ℕ) : Bool :=
  (32 ≤ nut && nut ≤ 35) || nut = 39 || (41 ≤ nut && nut ≤ 44) || (48 ≤ nut && nut ≤ 55)

/-- The types of slices. -/
def isSliceNut (nut : ℕ) : Bool := nut ≤ 9 || (16 ≤ nut && nut ≤ 21)

/-- What the byte `b` makes of `frame_start_found`, and whether it shows that the frame has
    ended. It is the last one pushed to `state64`. -/
def scanByte (state64 : ℕ) (found : Bool) (b : UInt8) : Bool × Bool :=
  if startCode state64 ≠ 1 then (found, false)
  else if beginsAccessUnit (nutOf state64) then
    if found && layerIdOf state64 = 0 then (false, true) else (found, false)
  else if isSliceNut (nutOf state64) then
    let firstSliceSegmentInPicFlag := b.toNat / 2 ^ 7
    if firstSliceSegmentInPicFlag ≠ 0 && layerIdOf state64 = 0 then
      if !found then (true, false) else (false, true)
    else (found, false)
  else (found, false)

/-- `hevc_find_frame_end`: the state after the bytes read, and the index of the byte that
    shows the end, if any. The frame has ended five bytes before it. -/
def hevcFindFrameEnd (state64 : ℕ) (found : Bool) : List UInt8 → ℕ × Bool × Option ℕ
  | [] => (state64, found, none)
  | b :: buf =>
    let state64 := pushByte state64 b
    match scanByte state64 found b with
    | (found, true) => (state64, found, some 0)
    | (found, false) =>
      let (state64, found, i) := hevcFindFrameEnd state64 found buf
      (state64, found, i.map (· + 1))

/-! ## Putting a frame together -/

/-- Copy into a memory. -/
def memcpy (buffer : ℕ → UInt8) (index : ℕ) (data : List UInt8) : ℕ → UInt8 := fun j =>
  if index ≤ j ∧ j < index + data.length then data.getD (j - index) 0 else buffer j

/-- The first bytes of a memory. -/
def contents (buffer : ℕ → UInt8) (size : ℕ) : List UInt8 := (List.range size).map buffer

/-- Copy one of the bytes left over from the last frame to the front. -/
def moveByte (sc : SplitContext) : SplitContext :=
  { sc with
    buffer := memcpy sc.buffer sc.index [sc.buffer sc.overreadIndex]
    index := sc.index + 1
    overreadIndex := sc.overreadIndex + 1
    overread := sc.overread - 1 }

/-- Copy all of them. -/
def moveOverread (sc : SplitContext) : SplitContext := moveByte^[sc.overread] sc

/-- Keep one byte for the next frame, and read it again: the one `next` places before the
    bytes of the packet. -/
def storeOverread (sc : SplitContext) (next : ℤ) : SplitContext :=
  { sc with
    state64 := pushByte sc.state64 (sc.buffer (sc.lastIndex + next).toNat)
    overread := sc.overread + 1 }

/-- `mpp_combine_frame`, with the place `next` where the frame ends, counted from the begin
    of `buf`: the frame, unless its end is still to come. -/
def mppCombineFrame (sc : SplitContext) (next : Option ℤ) (buf : List UInt8) :
    SplitContext × Option (List UInt8) :=
  let sc := moveOverread sc
  let next := if buf = [] ∧ next = none then some 0 else next
  let sc := { sc with lastIndex := sc.index }
  match next with
  | none =>
    ({ sc with buffer := memcpy sc.buffer sc.index buf, index := sc.index + buf.length }, none)
  | some next =>
    let size := (sc.index + next).toNat
    let sc := { sc with overreadIndex := size }
    let (sc, frame) :=
      if sc.index ≠ 0 then
        let buffer := memcpy sc.buffer sc.index (buf.take next.toNat)
        ({ sc with buffer, index := 0 }, contents buffer size)
      else (sc, buf.take size)
    -- `next` counts up to zero
    let sc := (List.range (-next).toNat).foldl (fun sc (k : ℕ) => storeOverread sc (next + k)) sc
    (sc, some frame)

/-- `h265d_split_frame`: the frame, empty if there is none, and the number of bytes used. -/
def h265dSplitFrame (sc : SplitContext) (buf : List UInt8) : SplitContext × List UInt8 × ℕ :=
  if sc.eos ∧ buf = [] then (sc, contents sc.buffer sc.index, 0) else
  let (state64, frameStartFound, i) := hevcFindFrameEnd sc.state64 sc.frameStartFound buf
  let sc := { sc with state64, frameStartFound }
  let next : Option ℤ := i.map fun (i : ℕ) => (i : ℤ) - 5
  let next := if sc.eos ∧ buf ≠ [] ∧ next = none then some (buf.length : ℤ) else next
  match mppCombineFrame sc next buf with
  | (sc, none) => (sc, [], buf.length)
  | (sc, some frame) => (sc, frame, (next.getD 0).toNat)

/-! ## The packets of a stream -/

/-- The frames of a packet, with at most `fuel` calls. -/
def feed : ℕ → SplitContext → List UInt8 → Option (SplitContext × List (List UInt8))
  | _, sc, [] => some (sc, [])
  | 0, _, _ :: _ => none
  | fuel + 1, sc, b :: buf =>
    let (sc, frame, consumed) := h265dSplitFrame sc (b :: buf)
    (feed fuel sc ((b :: buf).drop consumed)).map fun (sc, frames) =>
      (sc, if frame = [] then frames else frame :: frames)

/-- The frames of a stream that comes in packets; the last one is marked `eos`. -/
def splitRun : SplitContext → List (List UInt8) → Option (List (List UInt8))
  | _, [] => some []
  | sc, pkt :: pkts => do
    let (sc, frames) ← feed (pkt.length + 1) { sc with eos := pkts.isEmpty } pkt
    (splitRun sc pkts).map fun rest => frames ++ rest

/-- Two pictures in packets of four bytes, the second start code across two of them. -/
example : splitRun {} [[0, 0, 1, 2], [1, 0x80, 7, 0], [0, 1, 2, 1], [0x80, 9]] =
    some [[0, 0, 1, 2, 1, 0x80, 7], [0, 0, 1, 2, 1, 0x80, 9]] := by decide

end Libmpp.H265d
