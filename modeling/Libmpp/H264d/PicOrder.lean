import Libmpp.Lib.Machine
import Libmpp.H264d.Unchanged

/-!
# Picture order counts

`decode_poc` derives the order counts of a picture from the fields of its slices and
from what the video context keeps of the pictures before it. `alloc_decpic` runs it for
every picture, which is then stored; the storing says whether the picture was marked
like an IDR picture (operation 5), and the next derivation depends on that.

The derivation of the standard (`Itu`) carries from picture to picture the order count
of the last reference picture and the frame number of the last picture, both reset
after an operation 5.

* For the order count types 1 and 2 the code follows the standard.
* For type 0, the last order count after an operation 5 is taken from the slice, where
  the reset has not reached it: the code follows the standard as long as the frames with
  that operation had the order count 0 anyway (`reachable_agreesItu`).
-/

namespace Libmpp.H264d

open Base List

/-! ## The code -/

/-- The fields of the sequence parameter set that the order counts depend on. The offsets
    for the reference frames are `num_ref_frames_in_pic_order_cnt_cycle` many. -/
structure PocSps where
  picOrderCntType : ℕ
  log2MaxPicOrderCntLsbMinus4 : ℕ := 0
  offsetForNonRefPic : ℤ := 0
  offsetForTopToBottomField : ℤ := 0
  offsetForRefFrame : List ℤ := []
  maxFrameNum : ℕ
  frameMbsOnlyFlag : Bool := true

namespace PocSps

def maxPicOrderCntLsb (sps : PocSps) : ℤ := 2 ^ (sps.log2MaxPicOrderCntLsbMinus4 + 4)

def cycleLength (sps : PocSps) : ℕ := sps.offsetForRefFrame.length

end PocSps

/-- The fields of a slice header that the order counts and the storing of its picture
    depend on. -/
structure SliceHdr where
  idrFlag : Bool
  nalReferenceIdc : ℕ
  frameNum : ℕ
  picStructure : PictureStructure := .frame
  picOrderCntLsb : ℤ := 0
  deltaPicOrderCntBottom : ℤ := 0
  deltaPicOrderCnt0 : ℤ := 0
  deltaPicOrderCnt1 : ℤ := 0
  noOutputOfPriorPicsFlag : Bool := false
  longTermReferenceFlag : Bool := false
  adaptiveRefPicBufferingFlag : Bool := false
  decRefPicMarkingBuffer : List Drpm := []

/-- The order counts of a slice. `ThisPOC` equals `framepoc`. -/
structure SlicePoc where
  toppoc : ℤ := 0
  bottompoc : ℤ := 0
  framepoc : ℤ := 0
  deriving DecidableEq, Repr

/-- What the video context keeps for the order counts. -/
structure PocVid where
  prevPicOrderCntMsb : ℤ := 0
  prevPicOrderCntLsb : ℤ := 0
  previousFrameNum : ℕ := 0
  previousFrameNumOffset : ℕ := 0
  /-- `last_toppoc`, `last_bottompoc` and `last_framepoc` of the layer. -/
  last : SlicePoc := {}

/-- The order count of the last reference picture, as type 0 takes it. -/
def prevPicOrderCnt (lastHasMmco5 lastPicBottomField : Bool) (v : PocVid) (s : SliceHdr)
    (q : SlicePoc) : ℤ × ℤ :=
  if s.idrFlag then (0, 0)
  else if lastHasMmco5 then
    if lastPicBottomField then (0, 0) else (0, q.toppoc)
  else (v.prevPicOrderCntMsb, v.prevPicOrderCntLsb)

/-- The high bits of the order count whose low bits are `lsb`, next to the last one. -/
def picOrderCntMsb (max lsb : ℤ) (prev : ℤ × ℤ) : ℤ :=
  if lsb < prev.2 ∧ max / 2 ≤ prev.2 - lsb then prev.1 + max
  else if prev.2 < lsb ∧ max / 2 < lsb - prev.2 then prev.1 - max
  else prev.1

/-- The order counts of a picture whose fields have the given ones. -/
def SlicePoc.set (q : SlicePoc) (picStructure : PictureStructure) (top bottom : ℤ) : SlicePoc :=
  match picStructure with
  | .frame => ⟨top, bottom, min top bottom⟩
  | .topField => { q with toppoc := top, framepoc := top }
  | .bottomField => { q with bottompoc := bottom, framepoc := bottom }

/-- The previous frame number and its offset, as types 1 and 2 take them. -/
def prevFrameNum (lastHasMmco5 : Bool) (v : PocVid) : ℕ × ℕ :=
  if lastHasMmco5 then (0, 0) else (v.previousFrameNum, v.previousFrameNumOffset)

/-- `FrameNumOffset` -/
def frameNumOffset (sps : PocSps) (prev : ℕ × ℕ) (s : SliceHdr) : ℕ :=
  if s.idrFlag then 0
  else if s.frameNum < prev.1 then prev.2 + sps.maxFrameNum
  else prev.2

/-- `ExpectedPicOrderCnt`, summed up as the loops do. -/
def expectedPicOrderCnt (sps : PocSps) (offset : ℕ) (s : SliceHdr) : ℤ :=
  let n := sps.cycleLength
  let absFrameNum := if n = 0 then 0 else offset + s.frameNum
  let absFrameNum :=
    if s.nalReferenceIdc = 0 ∧ 0 < absFrameNum then absFrameNum - 1 else absFrameNum
  let delta := sps.offsetForRefFrame.foldl (fun x y => x + y) 0
  let expected :=
    if absFrameNum ≠ 0 then
      (List.range ((absFrameNum - 1) % n + 1)).foldl
        (fun x i => x + sps.offsetForRefFrame.getD i 0) (((absFrameNum - 1) / n : ℕ) * delta)
    else 0
  if s.nalReferenceIdc = 0 then expected + sps.offsetForNonRefPic else expected

/-- `decode_poc` -/
def decodePoc (sps : PocSps) (lastHasMmco5 lastPicBottomField : Bool) (v : PocVid)
    (s : SliceHdr) (q : SlicePoc) : PocVid × SlicePoc × MppRet :=
  match sps.picOrderCntType with
  | 0 =>
    let prev := prevPicOrderCnt lastHasMmco5 lastPicBottomField v s q
    let msb := picOrderCntMsb sps.maxPicOrderCntLsb s.picOrderCntLsb prev
    let poc := msb + s.picOrderCntLsb
    let next := if s.nalReferenceIdc ≠ 0 then (msb, s.picOrderCntLsb) else prev
    ({ v with
        prevPicOrderCntMsb := next.1
        prevPicOrderCntLsb := next.2
        previousFrameNum := s.frameNum },
      q.set s.picStructure poc
        (if s.picStructure = .frame then poc + s.deltaPicOrderCntBottom else poc), mppOk)
  | 1 =>
    let offset := frameNumOffset sps (prevFrameNum lastHasMmco5 v) s
    if s.idrFlag ∧ s.frameNum ≠ 0 then (v, q, mppErrValue)
    else
      let top := expectedPicOrderCnt sps offset s + s.deltaPicOrderCnt0
      ({ v with previousFrameNum := s.frameNum, previousFrameNumOffset := offset },
        q.set s.picStructure top
          (if s.picStructure = .frame then
            top + sps.offsetForTopToBottomField + s.deltaPicOrderCnt1
          else
            expectedPicOrderCnt sps offset s + sps.offsetForTopToBottomField +
              s.deltaPicOrderCnt0), mppOk)
  | 2 =>
    let offset := frameNumOffset sps (prevFrameNum lastHasMmco5 v) s
    if s.idrFlag ∧ s.frameNum ≠ 0 then (v, ⟨0, 0, 0⟩, mppErrValue)
    else
      let poc : ℤ :=
        if s.nalReferenceIdc = 0 then 2 * ((offset + s.frameNum : ℕ) : ℤ) - 1
        else 2 * ((offset + s.frameNum : ℕ) : ℤ)
      ({ v with previousFrameNum := s.frameNum, previousFrameNumOffset := offset },
        if s.idrFlag then ⟨0, 0, 0⟩ else q.set s.picStructure poc poc, mppOk)
  | _ => (v, q, mppNok)

/-- The picture of `alloc_decpic` for the slice, with its order counts. -/
def decPic (sps : PocSps) (s : SliceHdr) (q : SlicePoc) : StorePic where
  picStructure := s.picStructure
  poc :=
    match s.picStructure with
    | .topField => q.toppoc
    | .bottomField => q.bottompoc
    | .frame => q.framepoc
  topPoc := q.toppoc
  bottomPoc := q.bottompoc
  framePoc := q.framepoc
  picNum := s.frameNum
  frameNum := s.frameNum
  usedForReference := s.nalReferenceIdc ≠ 0
  idrFlag := s.idrFlag
  noOutputOfPriorPicsFlag := s.noOutputOfPriorPicsFlag
  longTermReferenceFlag := s.longTermReferenceFlag
  adaptiveRefPicBufferingFlag := s.adaptiveRefPicBufferingFlag
  decRefPicMarkingBuffer := s.decRefPicMarkingBuffer
  frameMbsOnlyFlag := sps.frameMbsOnlyFlag

/-- The order counts of a picture, with the last order count they were derived from
    (which only type 0 has). -/
structure PicOrder where
  prevPicOrderCntMsb : ℤ
  prevPicOrderCntLsb : ℤ
  topFieldOrderCnt : ℤ
  bottomFieldOrderCnt : ℤ
  picOrderCnt : ℤ
  deriving DecidableEq, Repr

/-- A decoder after some pictures, the last of them first. -/
structure PocRun where
  ctx : VideoCtx
  vid : PocVid
  pics : List (SliceHdr × PicOrder)

/-- Decode a picture: derive its order counts (`alloc_decpic`), take the given slot for
    it and store it. A picture that fails to decode gives no step. -/
def PocRun.step (sps : PocSps) (r : PocRun) (a : SliceHdr × ℤ) : Option PocRun :=
  let s := a.1
  let w := decodePoc sps r.ctx.lastHasMmco5 r.ctx.lastPicBottomField r.vid s r.vid.last
  if w.2.2 < 0 then none
  else
    let p := decPic sps s w.2.1
    let prev :=
      if sps.picOrderCntType = 0 then
        prevPicOrderCnt r.ctx.lastHasMmco5 r.ctx.lastPicBottomField r.vid s r.vid.last
      else (0, 0)
    (decodePicture r.ctx p a.2).bind fun x =>
      if x.2 < 0 then none
      else
        some
          { ctx := x.1
            vid := { w.1 with last := w.2.1 }
            pics := (s, ⟨prev.1, prev.2, p.topPoc, p.bottomPoc, p.framePoc⟩) :: r.pics }

/-! ## The standard -/

namespace Itu

/-- What the derivation takes over from the pictures before: the order count of the last
    reference picture, the number of the last frame and its offset. -/
structure Prev where
  picOrderCntMsb : ℤ := 0
  picOrderCntLsb : ℤ := 0
  frameNum : ℕ := 0
  frameNumOffset : ℕ := 0

/-- The frame carries a memory management control operation 5. -/
def includesMmco5 (s : SliceHdr) : Bool :=
  !s.idrFlag && s.nalReferenceIdc ≠ 0 && s.adaptiveRefPicBufferingFlag &&
    s.decRefPicMarkingBuffer.any (·.memoryManagementControlOperation = 5)

/-- The last order count for a frame: an IDR picture starts anew. -/
def base (prev : Prev) (s : SliceHdr) : ℤ × ℤ :=
  if s.idrFlag then (0, 0) else (prev.picOrderCntMsb, prev.picOrderCntLsb)

/-- `PicOrderCntMsb` (8-3) -/
def msb (sps : PocSps) (prev : Prev) (s : SliceHdr) : ℤ :=
  let max := sps.maxPicOrderCntLsb
  let b := base prev s
  if s.picOrderCntLsb < b.2 ∧ max / 2 ≤ b.2 - s.picOrderCntLsb then b.1 + max
  else if b.2 < s.picOrderCntLsb ∧ max / 2 < s.picOrderCntLsb - b.2 then b.1 - max
  else b.1

/-- `FrameNumOffset` (8-6) -/
def offset (sps : PocSps) (prev : Prev) (s : SliceHdr) : ℕ :=
  if s.idrFlag then 0
  else if s.frameNum < prev.frameNum then prev.frameNumOffset + sps.maxFrameNum
  else prev.frameNumOffset

/-- `absFrameNum` (8-7) -/
def absFrameNum (sps : PocSps) (prev : Prev) (s : SliceHdr) : ℕ :=
  let n := if sps.cycleLength = 0 then 0 else offset sps prev s + s.frameNum
  if s.nalReferenceIdc = 0 then n - 1 else n

/-- `expectedPicOrderCnt` (8-9): whole cycles, then the offsets of the last one. -/
def expected (sps : PocSps) (prev : Prev) (s : SliceHdr) : ℤ :=
  let k := absFrameNum sps prev s - 1
  (if 0 < absFrameNum sps prev s then
    (k / sps.cycleLength : ℕ) * sps.offsetForRefFrame.sum +
      (sps.offsetForRefFrame.take (k % sps.cycleLength + 1)).sum
  else 0) + if s.nalReferenceIdc = 0 then sps.offsetForNonRefPic else 0

/-- `TopFieldOrderCnt` of a frame (8-4, 8-10, 8-13). -/
def top (sps : PocSps) (prev : Prev) (s : SliceHdr) : ℤ :=
  match sps.picOrderCntType with
  | 0 => msb sps prev s + s.picOrderCntLsb
  | 1 => expected sps prev s + s.deltaPicOrderCnt0
  | _ =>
    if s.idrFlag then 0
    else if s.nalReferenceIdc = 0 then 2 * (offset sps prev s + s.frameNum : ℕ) - 1
    else 2 * (offset sps prev s + s.frameNum : ℕ)

/-- `BottomFieldOrderCnt` of a frame (8-5, 8-10, 8-13). -/
def bottom (sps : PocSps) (prev : Prev) (s : SliceHdr) : ℤ :=
  match sps.picOrderCntType with
  | 0 => top sps prev s + s.deltaPicOrderCntBottom
  | 1 => top sps prev s + sps.offsetForTopToBottomField + s.deltaPicOrderCnt1
  | _ => top sps prev s

/-- The order counts of a frame. -/
def order (sps : PocSps) (prev : Prev) (s : SliceHdr) : PicOrder :=
  let b := if sps.picOrderCntType = 0 then base prev s else (0, 0)
  ⟨b.1, b.2, top sps prev s, bottom sps prev s, min (top sps prev s) (bottom sps prev s)⟩

/-- What is taken over from a frame. After an operation 5, `tempPicOrderCnt` is taken
    from its order counts and its frame number is 0. -/
def next (sps : PocSps) (prev : Prev) (s : SliceHdr) : Prev :=
  let ref : ℤ × ℤ :=
    if s.nalReferenceIdc = 0 then base prev s
    else if includesMmco5 s then
      (0, top sps prev s - min (top sps prev s) (bottom sps prev s))
    else (msb sps prev s, s.picOrderCntLsb)
  { picOrderCntMsb := ref.1
    picOrderCntLsb := ref.2
    frameNum := if includesMmco5 s then 0 else s.frameNum
    frameNumOffset := if includesMmco5 s then 0 else offset sps prev s }

/-- What is taken over from a sequence of frames, the last one first. -/
def prev (sps : PocSps) : List SliceHdr → Prev
  | [] => {}
  | s :: l => next sps (prev sps l) s

/-- The order counts of a sequence of frames, the last one first. -/
def orders (sps : PocSps) : List SliceHdr → List PicOrder
  | [] => []
  | s :: l => order sps (prev sps l) s :: orders sps l

end Itu

/-! ## Agreement -/

/-- The decoder has derived the order counts of all its frames by the standard. -/
def AgreesItu (sps : PocSps) (r : PocRun) : Prop :=
  r.pics.map Prod.snd = Itu.orders sps (r.pics.map Prod.fst)

instance (sps : PocSps) (r : PocRun) : Decidable (AgreesItu sps r) := by
  unfold AgreesItu
  infer_instance

/-- The condition on a frame: for order count type 0, when it is not an IDR picture and
    follows a frame with an operation 5, the order count of that one was 0. -/
def KeepsOrder (sps : PocSps) (r : PocRun) (a : SliceHdr × ℤ) : Prop :=
  a.1.picStructure = .frame ∧
    (sps.picOrderCntType = 0 → !a.1.idrFlag → r.ctx.lastHasMmco5 →
      min r.vid.last.toppoc r.vid.last.bottompoc = 0)

instance (sps : PocSps) (r : PocRun) (a : SliceHdr × ℤ) : Decidable (KeepsOrder sps r a) := by
  unfold KeepsOrder
  infer_instance

/-- A decoder that has not decoded any picture. -/
def PocRun.start (cfg : DecCfg) : PocRun where
  ctx := initVideoCtx cfg
  vid := {}
  pics := []

/-! ### The order counts of one frame -/

/-- A loop that adds the first entries of a list. -/
theorem foldl_range_getD (l : List ℤ) (x : ℤ) {n : ℕ} (hn : n ≤ l.length) :
    (List.range n).foldl (fun x i => x + l.getD i 0) x = x + (l.take n).sum := by
  induction n with
  | zero => simp
  | succ n ih =>
    have hlt : n < l.length := hn
    rw [range_succ, foldl_append, ih (by omega), foldl_cons, foldl_nil,
      sum_take_succ l n hlt, getD_eq_getElem l 0 hlt, add_assoc]

theorem expectedPicOrderCnt_eq (sps : PocSps) (prev : Itu.Prev) (s : SliceHdr) :
    expectedPicOrderCnt sps (Itu.offset sps prev s) s = Itu.expected sps prev s := by
  have habs : (if s.nalReferenceIdc = 0 ∧
      0 < (if sps.cycleLength = 0 then 0 else Itu.offset sps prev s + s.frameNum) then
        (if sps.cycleLength = 0 then 0 else Itu.offset sps prev s + s.frameNum) - 1
      else if sps.cycleLength = 0 then 0 else Itu.offset sps prev s + s.frameNum) =
        Itu.absFrameNum sps prev s := by
    unfold Itu.absFrameNum
    dsimp only
    split_ifs <;> omega
  have hcycle : Itu.absFrameNum sps prev s ≠ 0 → 0 < sps.cycleLength := by
    intro h
    by_contra h0
    simp [Itu.absFrameNum, Nat.eq_zero_of_not_pos h0] at h
  unfold expectedPicOrderCnt Itu.expected
  dsimp only
  rw [habs]
  have hsum : (if Itu.absFrameNum sps prev s ≠ 0 then
      (List.range ((Itu.absFrameNum sps prev s - 1) % sps.cycleLength + 1)).foldl
        (fun x i => x + sps.offsetForRefFrame.getD i 0)
        (((Itu.absFrameNum sps prev s - 1) / sps.cycleLength : ℕ) *
          sps.offsetForRefFrame.foldl (fun x y => x + y) 0)
      else 0) =
      if 0 < Itu.absFrameNum sps prev s then
        ((Itu.absFrameNum sps prev s - 1) / sps.cycleLength : ℕ) * sps.offsetForRefFrame.sum +
          (sps.offsetForRefFrame.take
            ((Itu.absFrameNum sps prev s - 1) % sps.cycleLength + 1)).sum
      else 0 := by
    by_cases h0 : Itu.absFrameNum sps prev s = 0
    · rw [if_neg (not_not.2 h0), if_neg (by omega)]
    · have hlt : (Itu.absFrameNum sps prev s - 1) % sps.cycleLength < sps.cycleLength :=
        Nat.mod_lt _ (hcycle h0)
      rw [if_pos h0, if_pos (Nat.pos_of_ne_zero h0), foldl_range_getD _ _ hlt,
        sps.offsetForRefFrame.sum_eq_foldl]
  rw [hsum]
  split_ifs <;> simp

/-- The frame number and offset that types 1 and 2 start from are those taken over. -/
theorem frameNumOffset_eq {sps : PocSps} {prev : Itu.Prev} {q : ℕ × ℕ} (s : SliceHdr)
    (hq : q = (prev.frameNum, prev.frameNumOffset)) :
    frameNumOffset sps q s = Itu.offset sps prev s := by
  subst hq
  rfl

theorem picOrderCntMsb_eq (sps : PocSps) (prev : Itu.Prev) (s : SliceHdr) :
    picOrderCntMsb sps.maxPicOrderCntLsb s.picOrderCntLsb (Itu.base prev s) =
      Itu.msb sps prev s := rfl

/-- What the video context keeps is what the standard takes over. -/
structure InOrder (sps : PocSps) (r : PocRun) : Prop where
  agrees : AgreesItu sps r
  notBottom : r.ctx.lastPicBottomField = false
  /-- After an operation 5 the order count of the last frame, still to be reset. -/
  orderCnt : sps.picOrderCntType = 0 →
    if r.ctx.lastHasMmco5 then
      (Itu.prev sps (r.pics.map Prod.fst)).picOrderCntMsb = 0 ∧
        (Itu.prev sps (r.pics.map Prod.fst)).picOrderCntLsb =
          r.vid.last.toppoc - min r.vid.last.toppoc r.vid.last.bottompoc
    else
      (Itu.prev sps (r.pics.map Prod.fst)).picOrderCntMsb = r.vid.prevPicOrderCntMsb ∧
        (Itu.prev sps (r.pics.map Prod.fst)).picOrderCntLsb = r.vid.prevPicOrderCntLsb
  frameNum : sps.picOrderCntType ≠ 0 →
    prevFrameNum r.ctx.lastHasMmco5 r.vid =
      ((Itu.prev sps (r.pics.map Prod.fst)).frameNum,
        (Itu.prev sps (r.pics.map Prod.fst)).frameNumOffset)

/-- Under the condition, type 0 starts from the order count of the standard. -/
theorem InOrder.prevPicOrderCnt_eq {sps : PocSps} {r : PocRun} {a : SliceHdr × ℤ}
    (hr : InOrder sps r) (h0 : sps.picOrderCntType = 0) (ha : KeepsOrder sps r a) :
    prevPicOrderCnt r.ctx.lastHasMmco5 r.ctx.lastPicBottomField r.vid a.1 r.vid.last =
      Itu.base (Itu.prev sps (r.pics.map Prod.fst)) a.1 := by
  have ho := hr.orderCnt h0
  have hk := ha.2 h0
  unfold prevPicOrderCnt Itu.base
  cases hidr : a.1.idrFlag with
  | true => rfl
  | false =>
    cases h5 : r.ctx.lastHasMmco5 with
    | true =>
      rw [h5, if_pos rfl] at ho
      rw [hidr, h5] at hk
      simp [hr.notBottom, ho.1, ho.2, hk rfl rfl]
    | false =>
      rw [h5] at ho
      simp [ho.1, ho.2]

/-! ### Runs -/

section Step

variable {sps : PocSps} {r : PocRun} {a : SliceHdr × ℤ}

/-- What `decode_poc` leaves for the next frame. -/
structure DerivesOrder (sps : PocSps) (prev : Itu.Prev) (s : SliceHdr)
    (w : PocVid × SlicePoc × MppRet) : Prop where
  poc : w.2.1 = ⟨Itu.top sps prev s, Itu.bottom sps prev s,
    min (Itu.top sps prev s) (Itu.bottom sps prev s)⟩
  orderCnt : sps.picOrderCntType = 0 →
    (w.1.prevPicOrderCntMsb, w.1.prevPicOrderCntLsb) =
      if s.nalReferenceIdc = 0 then Itu.base prev s else (Itu.msb sps prev s, s.picOrderCntLsb)
  frameNum : sps.picOrderCntType ≠ 0 →
    (w.1.previousFrameNum, w.1.previousFrameNumOffset) =
      (s.frameNum, Itu.offset sps prev s)

theorem InOrder.decodePoc (hr : InOrder sps r) (ha : KeepsOrder sps r a)
    (hok : 0 ≤ (decodePoc sps r.ctx.lastHasMmco5 r.ctx.lastPicBottomField r.vid a.1
      r.vid.last).2.2) :
    DerivesOrder sps (Itu.prev sps (r.pics.map Prod.fst)) a.1
      (decodePoc sps r.ctx.lastHasMmco5 r.ctx.lastPicBottomField r.vid a.1 r.vid.last) := by
  have hframe := ha.1
  unfold H264d.decodePoc at hok ⊢
  split at hok
  next h0 =>
    rw [hr.prevPicOrderCnt_eq h0 ha]
    dsimp only
    rw [picOrderCntMsb_eq, hframe]
    refine ⟨?_, fun _ => ?_, fun h => absurd h0 h⟩
    · simp [SlicePoc.set, Itu.top, Itu.bottom, h0]
    · split_ifs <;> simp_all
  next h1 =>
    have hoff : frameNumOffset sps _ a.1 = _ :=
      frameNumOffset_eq a.1 (hr.frameNum (by rw [h1]; decide))
    rw [hoff] at hok ⊢
    dsimp only at hok ⊢
    split at hok
    · exact absurd (show mppErrValue < 0 by decide) (not_lt.2 hok)
    · rw [if_neg (by assumption), expectedPicOrderCnt_eq, hframe]
      refine ⟨?_, fun h => absurd (h1.symm.trans h) (by decide), fun _ => rfl⟩
      simp [SlicePoc.set, Itu.top, Itu.bottom, h1]
  next h2 =>
    have hoff : frameNumOffset sps _ a.1 = _ :=
      frameNumOffset_eq a.1 (hr.frameNum (by rw [h2]; decide))
    rw [hoff] at hok ⊢
    dsimp only at hok ⊢
    split at hok
    · exact absurd (show mppErrValue < 0 by decide) (not_lt.2 hok)
    · rw [if_neg (by assumption), hframe]
      refine ⟨?_, fun h => absurd (h2.symm.trans h) (by decide), fun _ => rfl⟩
      simp only [SlicePoc.set, Itu.top, Itu.bottom, h2]
      split_ifs <;> simp
  next => exact absurd (show mppNok < 0 by decide) (not_lt.2 hok)

/-- A frame that meets the condition keeps the agreement. -/
theorem InOrder.step (hr : InOrder sps r) (ha : KeepsOrder sps r a) {r' : PocRun}
    (h : r.step sps a = some r') : InOrder sps r' := by
  unfold PocRun.step at h
  dsimp only at h
  split at h
  · exact absurd h (by simp)
  · rename_i hneg
    obtain ⟨x, hx, hr'⟩ := Option.bind_eq_some_iff.1 h
    split at hr'
    · exact absurd hr' (by simp)
    · rename_i hret
      have hd := hr.decodePoc ha (not_lt.1 hneg)
      have hs := decodePicture_settings _ _ hx (not_lt.1 hret)
      have h5 : x.1.lastHasMmco5 = Itu.includesMmco5 a.1 := congrArg Settings.lastHasMmco5 hs
      have hb : x.1.lastPicBottomField = false := by
        refine (congrArg Settings.lastPicBottomField hs).trans ?_
        simp [decPic, ha.1]
      generalize hw : H264d.decodePoc sps r.ctx.lastHasMmco5 r.ctx.lastPicBottomField r.vid a.1
        r.vid.last = w at *
      obtain rfl := Option.some.inj hr'
      refine ⟨?_, hb, fun h0 => ?_, fun h0 => ?_⟩
      · have hprev : (if sps.picOrderCntType = 0 then
            prevPicOrderCnt r.ctx.lastHasMmco5 r.ctx.lastPicBottomField r.vid a.1 r.vid.last
            else (0, 0)) =
              if sps.picOrderCntType = 0 then Itu.base (Itu.prev sps (r.pics.map Prod.fst)) a.1
              else (0, 0) := by
          split_ifs with h0
          · exact hr.prevPicOrderCnt_eq h0 ha
          · rfl
        simp only [AgreesItu, map_cons, Itu.orders, hprev, decPic, hd.poc]
        exact congrArg₂ _ rfl hr.agrees
      · have ho := hd.orderCnt h0
        simp only [map_cons, Itu.prev, Itu.next, h5, hd.poc]
        cases h5' : Itu.includesMmco5 a.1 with
        | true =>
          have href : a.1.nalReferenceIdc ≠ 0 := by
            intro hz
            simp [Itu.includesMmco5, hz] at h5'
          simp [href]
        | false =>
          rw [Prod.mk.injEq] at ho
          rw [ho.1, ho.2]
          split_ifs <;> simp_all
      · have hf := hd.frameNum h0
        simp only [map_cons, Itu.prev, Itu.next, prevFrameNum, h5]
        cases h5' : Itu.includesMmco5 a.1 with
        | true => rfl
        | false => exact hf

end Step

/-- The pictures of a stream, with the slots they are given. -/
def pocMachine (sps : PocSps) (cfg : DecCfg) : Machine PocRun (SliceHdr × ℤ) :=
  .ofPartial (PocRun.start cfg) (PocRun.step sps)

theorem inOrder_start (sps : PocSps) (cfg : DecCfg) : InOrder sps (PocRun.start cfg) where
  agrees := rfl
  notBottom := rfl
  orderCnt _ := ⟨rfl, rfl⟩
  frameNum _ := rfl

/-- In every run whose frames meet the condition, the order counts of all frames and what
    they are derived from are those of the standard. -/
theorem reachable_agreesItu (sps : PocSps) (cfg : DecCfg) {r : PocRun}
    (h : ((pocMachine sps cfg).guarded fun r a _ => KeepsOrder sps r a).Reachable r) :
    AgreesItu sps r := by
  refine (h.invariant (P := InOrder sps) (fun r hr => ?_) fun r a r' _ hr hst => ?_).agrees
  · rw [show r = _ from hr]
    exact inOrder_start sps cfg
  · exact hr.step hst.2 hst.1

/-- A reference frame of order count type 0, with the operation 5 or without. -/
def pFrame (frameNum : ℕ) (lsb : ℤ) (mmco5 : Bool) : SliceHdr where
  idrFlag := false
  nalReferenceIdc := 1
  frameNum := frameNum
  picOrderCntLsb := lsb
  adaptiveRefPicBufferingFlag := mmco5
  decRefPicMarkingBuffer := if mmco5 then [{ memoryManagementControlOperation := 5 }] else []

def idrFrame : SliceHdr where
  idrFlag := true
  nalReferenceIdc := 1
  frameNum := 0

/-- Order count type 0 with low bits from 0 to 15. -/
def lsbSps : PocSps where
  picOrderCntType := 0
  maxFrameNum := 16

def smallDec : DecCfg where
  size := 4
  numRefFrames := 2
  maxFrameNum := 16

theorem reachable_agreesItu_idr :
    ∃ r, ((pocMachine lsbSps smallDec).guarded fun r a _ => KeepsOrder lsbSps r a).Reachable r ∧
      r.pics.length = 4 ∧ AgreesItu lsbSps r := by
  have h : ((Machine.run (PocRun.step lsbSps) (fun r a _ => KeepsOrder lsbSps r a)
      (PocRun.start smallDec) [(idrFrame, 0), (pFrame 1 6 true, 1), (idrFrame, 2),
        (pFrame 1 4 false, 3)]).any fun r => r.pics.length = 4) = true := by
    decide +kernel
  obtain ⟨r, hr, hlen⟩ := (Option.any_eq_true _ _).1 h
  have hreach := Machine.Reachable.run (.init rfl) hr
  exact ⟨r, hreach, of_decide_eq_true hlen, reachable_agreesItu lsbSps smallDec hreach⟩

/-- After a frame of order count 12 with an operation 5, the standard counts the next
    frame from 0 and the code from 12: low bits 2 give it 2 there and 18 here. -/
theorem mmco5_counts_from_old_order :
    ∃ r, ((pocMachine lsbSps smallDec).guarded
      fun _ a _ => a.1.picStructure = .frame).Reachable r ∧ ¬AgreesItu lsbSps r := by
  have h : ((Machine.run (PocRun.step lsbSps) (fun _ a _ => a.1.picStructure = .frame)
      (PocRun.start smallDec) [(idrFrame, 0), (pFrame 1 6 false, 1), (pFrame 2 12 true, 2),
        (pFrame 1 2 false, 3)]).any fun r => ¬AgreesItu lsbSps r) = true := by
    decide +kernel
  obtain ⟨r, hr, hno⟩ := (Option.any_eq_true _ _).1 h
  exact ⟨r, Machine.Reachable.run (.init rfl) hr, of_decide_eq_true hno⟩

end Libmpp.H264d
