import Libmpp.Bitstream.ExpGolomb

/-!
# Length-prefixed input of the H.264 decoder

The two functions of `h264d_parse.c` that take NAL units with a length in front of them,
instead of start codes: the parameter sets of an extra data packet
(`parsePrepareAvccHeader`) and the units of a packet of data (`parsePrepareAvccData`).

The bytes of the packet from the current position on are a list, and every read takes its
bytes from that list: a read of bytes that are not there is a fault, as is a length that
would go below zero. The contents of what is stored and the time stamps are left out, and
an allocation that fails.

The lengths of the parameter sets are not looked at, and that of a unit is compared with
what is left before its length field is taken off. A call ends without a fault exactly when
the units it comes to are inside (`avcc_inside_iff`).
-/

namespace Libmpp.H264d

open Libmpp.Bitstream List

/-- What the input functions must not do. -/
inductive Fault
  | outside
  | belowZero
  | endless
  deriving DecidableEq, Repr

/-! ## NAL units -/

def naluTypeSlice : ℕ := 1
def naluTypeIdr : ℕ := 5
def naluTypeSei : ℕ := 6
def naluTypeSps : ℕ := 7
def naluTypePps : ℕ := 8
def naluTypeAud : ℕ := 9
def naluTypePrefix : ℕ := 14
def naluTypeSubSps : ℕ := 15
def naluTypeSlcExt : ℕ := 20
def naluTypeUnspecified28 : ℕ := 28

/-- `HEAD_SYNTAX_MAX_SIZE` -/
def headSyntaxMaxSize : ℕ := 12800

/-- The size of `H264dNaluHead_t`. -/
def naluHeadSize : ℕ := 8

/-- The input and the current stream. What is left of the packet is `rest`. -/
structure AvccInput where
  nalSize : ℕ
  spsNum : ℕ := 0
  ppsNum : ℕ := 0
  profile : UInt8 := 0
  level : UInt8 := 0
  rest : List UInt8
  inLength : ℕ
  pktLength : ℕ
  pktEos : Bool := false
  taskEos : Bool := false
  taskValid : Bool := false
  naluOffset : ℕ := 0
  naluLen : ℕ := 0
  naluType : ℕ := 0
  headOffset : ℕ := 0
  tmpOffset : ℕ := 0
  firstMbInSlice : UInt32 := 0
  startcodeFound : Bool := true
  endcodeFound : Bool := false
  isNewFrame : Bool := false
  haveSliceData : Bool := false
  enableHdrMeta : Bool := false
  deriving DecidableEq, Repr

/-- `U16_AT` -/
def u16At (a b : UInt8) : ℕ := a.toNat * 256 + b.toNat

/-- The length in front of a unit. -/
def parseNalSize : ℕ → List UInt8 → Except Fault ℕ
  | 1, a :: _ => .ok a.toNat
  | 2, a :: b :: _ => .ok (u16At a b)
  | 3, a :: b :: c :: _ => .ok (a.toNat * 2 ^ 16 + u16At b c)
  | 4, a :: b :: c :: d :: _ => .ok (u16At a b * 2 ^ 16 + u16At c d)
  | n, _ => if 1 ≤ n ∧ n ≤ 4 then .error .outside else .ok 0

/-- The types whose first bytes go to the head buffer. -/
def storesHead (naluType : ℕ) : Bool :=
  naluType = naluTypeSlice || naluType = naluTypeIdr || naluType = naluTypeSps ||
    naluType = naluTypePps || naluType = naluTypeSubSps || naluType = naluTypeSei ||
    naluType = naluTypePrefix || naluType = naluTypeSlcExt

/-- The types that are stored as a whole. -/
def storesSlice (naluType : ℕ) : Bool := naluType = naluTypeSlice || naluType = naluTypeIdr

/-- The number of bytes that `store_cur_nalu` reads. What it takes as HDR data is the unit
    without its first two bytes, and of a unit of one byte about as many as there are. -/
def storeReads (s : AvccInput) : ℕ :=
  max (if storesHead s.naluType then min headSyntaxMaxSize s.naluLen else 0)
    (max (if storesSlice s.naluType then s.naluLen else 0)
      (if s.enableHdrMeta ∧ s.naluType = naluTypeUnspecified28 then
        2 + (s.naluLen + 2 ^ 32 - 2) % 2 ^ 32 else 0))

/-- Store the unit in `nalu`. -/
def storeCurNalu (s : AvccInput) (nalu : List UInt8) : Except Fault AvccInput :=
  if storeReads s ≤ nalu.length then
    if storesHead s.naluType then
      let addSize := min headSyntaxMaxSize s.naluLen + naluHeadSize
      let s := if s.tmpOffset ≠ 0 ∧ s.headOffset = 0 then
        { s with headOffset := s.tmpOffset, tmpOffset := 0 } else s
      let s := { s with headOffset := s.headOffset + addSize }
      .ok (if s.haveSliceData ∧ ¬storesSlice s.naluType then
        { s with tmpOffset := s.tmpOffset + addSize } else s)
    else .ok s
  else .error .outside

def addEmptyNalu (s : AvccInput) : AvccInput :=
  { s with headOffset := s.headOffset + naluHeadSize }

def clearExtraHeader (s : AvccInput) : AvccInput :=
  if s.tmpOffset ≥ s.headOffset then s else { s with headOffset := s.headOffset - s.tmpOffset }

/-- The first macroblock of a slice, in a window of four bytes. The reader that runs out of
    bytes in a window with fewer is about to read outside. -/
def readFirstMb (slice : List UInt8) : Except Fault (Option UInt32) :=
  match mppReadUe (mppSetBitreadPseudoCodeType (mppSetBitreadCtx (slice.take 4)) .h264H265) with
  | some (ue, _) => .ok (some ue)
  | none => if slice.length < 4 then .error .outside else .ok none

/-- Whether the unit in `nalu` begins a frame. -/
def judgeIsNewFrame (s : AvccInput) (nalu : List UInt8) : Except Fault AvccInput :=
  match nalu with
  | [] => .error .outside
  | b :: _ =>
    let naluType := b.toNat % 32
    let headerBytes := if naluType = naluTypePrefix ∨ naluType = naluTypeSlcExt then 4 else 1
    let naluType := if naluType = naluTypeSlcExt then naluTypeSlice else naluType
    let s := { s with naluType }
    if s.naluLen = 1 ∧ (naluType = naluTypeSei ∨ naluType = naluTypeSps ∨
        naluType = naluTypePps ∨ naluType = naluTypeSubSps ∨ naluType = naluTypeAud) then
      .ok { s with isNewFrame := s.isNewFrame || s.haveSliceData, haveSliceData := false }
    else if s.naluLen > 1 ∧ storesSlice naluType then do
      match ← readFirstMb (nalu.drop headerBytes) with
      | none => .ok s
      | some firstMb =>
        let s := if firstMb = 0 then
            { s with isNewFrame := s.isNewFrame || s.haveSliceData, haveSliceData := true }
          else if s.tmpOffset ≠ 0 ∧ firstMb ≠ s.firstMbInSlice then { s with tmpOffset := 0 }
          else s
        .ok { s with firstMbInSlice := firstMb }
    else .ok s

/-! ## The header -/

/-- Store `n` parameter sets, each behind its length. -/
def storeSets (naluType : ℕ) :
    ℕ → AvccInput → List UInt8 → Except Fault (AvccInput × List UInt8)
  | 0, s, pdata => .ok (s, pdata)
  | n + 1, s, a :: b :: nalu => do
    let s ← storeCurNalu { s with naluLen := u16At a b, naluType } nalu
    storeSets naluType n s (nalu.drop (u16At a b))
  | _ + 1, _, _ => .error .outside

/-- The parameter sets of an extra data packet, `data`. -/
def parsePrepareAvccHeader (s : AvccInput) (data : List UInt8) : Except Fault AvccInput :=
  match data with
  | version :: profile :: _ :: level :: sizes :: numSps :: pdata =>
    if data.length < 7 then .ok s
    else if version ≠ 1 then .ok s
    else do
      let s := { s with
        profile
        level
        nalSize := 1 + sizes.toNat % 4
        spsNum := numSps.toNat % 32 }
      let (s, pdata) ← storeSets naluTypeSps s.spsNum s pdata
      match pdata with
      | [] => .error .outside
      | numPps :: pdata =>
        let s := { s with ppsNum := numPps.toNat }
        let (s, _) ← storeSets naluTypePps s.ppsNum s pdata
        .ok { s with pktLength := 0, startcodeFound := true }
  | _ => .ok s

/-! ## The data -/

/-- Where the loop over the units goes on. -/
inductive Next
  | again (s : AvccInput)
  | leave (s : AvccInput)
  | failed (s : AvccInput)
  deriving DecidableEq, Repr

/-- The packet is given up. -/
def dropPacket (s : AvccInput) : AvccInput :=
  { s with
    isNewFrame := true
    haveSliceData := false
    rest := []
    pktLength := 0
    inLength := 0
    naluLen := 0
    naluOffset := 0
    startcodeFound := true
    endcodeFound := false }

/-- The position `n` bytes on. -/
def AvccInput.skip (s : AvccInput) (n : ℕ) : AvccInput :=
  { s with
    rest := s.rest.drop n
    naluOffset := s.naluOffset + n
    pktLength := s.pktLength - n
    inLength := s.inLength - n }

/-- Go on by `n` bytes. -/
def advance (s : AvccInput) (n : ℕ) : Except Fault AvccInput :=
  if n ≤ s.pktLength ∧ n ≤ s.inLength then .ok (s.skip n) else .error .belowZero

/-- What is left behind the unit is looked at, or is not enough for a length. -/
def checkLeft (s : AvccInput) : Next :=
  if s.inLength < s.nalSize then .leave (dropPacket s) else .again s

/-- Store the unit at the position, and go on behind it. -/
def takeUnit (s : AvccInput) : Except Fault AvccInput :=
  match s.rest with
  | [] => .error .outside
  | b :: _ => do
    let s ← storeCurNalu { s with
      naluType := b.toNat % 32
      startcodeFound := false
      endcodeFound := true } s.rest
    let s ← advance s s.naluLen
    .ok { s with startcodeFound := true, endcodeFound := false, naluLen := 0 }

/-- Take a unit that begins no frame. -/
def takeNalu (s : AvccInput) : Except Fault AvccInput := do
  let s ← advance s s.nalSize
  takeUnit s

/-- A unit that is not rejected: the loop is left when it begins a frame. -/
def avccUnit (s : AvccInput) : Except Fault Next := do
  let s ← judgeIsNewFrame s (s.rest.drop s.nalSize)
  if s.isNewFrame then
    .ok (.leave { s with haveSliceData := false, startcodeFound := true, endcodeFound := false })
  else do
    let s ← takeNalu s
    .ok (checkLeft s)

/-- One round of the loop over the units. -/
def avccRound (s : AvccInput) : Except Fault Next :=
  if s.startcodeFound then do
    let naluLen ← parseNalSize s.nalSize s.rest
    if naluLen = 0 ∨ naluLen ≥ s.inLength then .ok (.failed (dropPacket { s with naluLen }))
    else avccUnit { s with naluLen }
  else .ok (checkLeft s)

/-- The loop over the units. -/
def avccLoop : ℕ → AvccInput → Except Fault Next
  | 0, _ => .error .endless
  | fuel + 1, s =>
    if s.inLength = 0 then .ok (.leave s)
    else do
      match ← avccRound s with
      | .again s => avccLoop fuel s
      | next => .ok next

/-- The end of a frame. -/
def endFrame (s : AvccInput) : AvccInput :=
  if s.isNewFrame then
    let s := if s.tmpOffset ≠ 0 then clearExtraHeader s else s
    let s := addEmptyNalu s
    { s with headOffset := 0, firstMbInSlice := 0, taskValid := true, isNewFrame := false }
  else s

/-- The units of a packet of data, up to the first one that begins a new frame. -/
def parsePrepareAvccData (s : AvccInput) : Except Fault AvccInput :=
  let s := { s with taskValid := false }
  if s.pktEos then .ok { s with taskEos := true, taskValid := s.inLength ≠ 0 }
  else if s.nalSize = 0 then .ok s
  else do
    match ← avccLoop (s.inLength + 1) s with
    | .again s | .failed s => .ok s
    | .leave s => .ok (endFrame s)

/-! ## Units that are inside -/

/-- The length in front of the unit. -/
def AvccInput.codedLen (s : AvccInput) : ℕ :=
  (s.rest.take s.nalSize).foldl (fun len b => len * 256 + b.toNat) 0

/-- The unit, with all that is behind it. -/
def AvccInput.nalu (s : AvccInput) : List UInt8 := s.rest.drop s.nalSize

variable (data : List UInt8) (nalu : List UInt8)

/-- The type in the first byte of a unit. -/
def typeOf : ℕ := (nalu.headD 0).toNat % 32

/-- A slice, whose first macroblock is looked at. -/
def IsSlice (len : ℕ) : Prop :=
  1 < len ∧ (typeOf nalu = naluTypeSlice ∨ typeOf nalu = naluTypeIdr ∨ typeOf nalu = naluTypeSlcExt)

instance (nalu : List UInt8) (len : ℕ) : Decidable (IsSlice nalu len) :=
  inferInstanceAs (Decidable (_ ∧ _))

/-- The bytes behind the header of a unit. -/
def sliceOf : List UInt8 :=
  nalu.drop (if typeOf nalu = naluTypePrefix ∨ typeOf nalu = naluTypeSlcExt then 4 else 1)

/-- What is looked at of a unit to see whether it begins a frame is inside. -/
def HeadInside (len : ℕ) : Prop :=
  nalu ≠ [] ∧ (IsSlice nalu len → readFirstMb (sliceOf nalu) ≠ .error .outside)

instance (nalu : List UInt8) (len : ℕ) : Decidable (HeadInside nalu len) :=
  inferInstanceAs (Decidable (_ ∧ _))

/-- The unit begins a frame. -/
def AvccInput.BeginsFrame (s : AvccInput) (len : ℕ) : Prop :=
  s.isNewFrame ∨ (s.haveSliceData ∧
    ((len = 1 ∧ typeOf s.nalu ∈ [naluTypeSei, naluTypeSps, naluTypePps, naluTypeSubSps,
      naluTypeAud]) ∨
      (IsSlice s.nalu len ∧ readFirstMb (sliceOf s.nalu) = .ok (some 0))))

instance (s : AvccInput) (len : ℕ) : Decidable (s.BeginsFrame len) :=
  inferInstanceAs (Decidable (_ ∨ _))

/-- The length field is inside, and when the unit is not rejected its head, and when it
    begins no frame the whole of it. HDR data of one byte is taken for one of 4 GiB. -/
def AvccInput.NalInside (s : AvccInput) : Prop :=
  s.nalSize ≤ s.rest.length ∧ (0 < s.codedLen → s.codedLen < s.inLength →
    HeadInside s.nalu s.codedLen ∧ (¬s.BeginsFrame s.codedLen →
      s.codedLen ≤ s.nalu.length ∧
        (s.enableHdrMeta ∧ typeOf s.nalu = naluTypeUnspecified28 ∧ s.codedLen = 1 →
          2 ^ 32 + 1 ≤ s.nalu.length)))

instance (s : AvccInput) : Decidable s.NalInside := inferInstanceAs (Decidable (_ ∧ _))

/-- The lengths are those of what is left of the packet. -/
structure AvccInput.AtPacket (s : AvccInput) : Prop where
  inLength : s.inLength = s.rest.length
  pktLength : s.pktLength = s.rest.length

/-- The states in which the loop comes to a unit. -/
def avccVisits : ℕ → AvccInput → List AvccInput
  | 0, _ => []
  | fuel + 1, s =>
    if s.inLength = 0 then []
    else s :: match avccRound s with
      | .ok (.again s') => avccVisits fuel s'
      | _ => []

/-! ### The head of a unit -/

/-- The position in the packet is the same. -/
structure SamePos (s s' : AvccInput) : Prop where
  nalSize : s'.nalSize = s.nalSize
  rest : s'.rest = s.rest
  inLength : s'.inLength = s.inLength
  pktLength : s'.pktLength = s.pktLength
  naluLen : s'.naluLen = s.naluLen
  enableHdrMeta : s'.enableHdrMeta = s.enableHdrMeta

theorem readFirstMb_cases (slice : List UInt8) :
    readFirstMb slice = .error .outside ∨ readFirstMb slice = .ok none ∨
      ∃ firstMb, readFirstMb slice = .ok (some firstMb) := by
  rw [readFirstMb]
  split
  · exact .inr (.inr ⟨_, rfl⟩)
  · split_ifs
    · exact .inl rfl
    · exact .inr (.inl rfl)

variable {n : ℕ}

theorem parseNalSize_eq (hn : 1 ≤ n) (hn' : n ≤ 4) (l : List UInt8) :
    parseNalSize n l = if n ≤ l.length then
      .ok ((l.take n).foldl (fun len b => len * 256 + b.toNat) 0) else .error .outside := by
  interval_cases n <;> rcases l with _ | ⟨a, _ | ⟨b, _ | ⟨c, _ | ⟨d, l⟩⟩⟩⟩ <;>
    simp [parseNalSize, u16At] <;> ring

/-- The type that the start of a frame is judged by. -/
theorem judged_type (t : ℕ) :
    let naluType := if t = naluTypeSlcExt then naluTypeSlice else t
    ((naluType = naluTypeSei ∨ naluType = naluTypeSps ∨ naluType = naluTypePps ∨
        naluType = naluTypeSubSps ∨ naluType = naluTypeAud) ↔
      t ∈ [naluTypeSei, naluTypeSps, naluTypePps, naluTypeSubSps, naluTypeAud]) ∧
    (storesSlice naluType ↔ t = naluTypeSlice ∨ t = naluTypeIdr ∨ t = naluTypeSlcExt) := by
  by_cases ht : t = naluTypeSlcExt
  · subst ht
    decide
  · simp only [if_neg ht, mem_cons, not_mem_nil, or_false, storesSlice, Bool.or_eq_true,
      decide_eq_true_eq, true_and]
    exact or_congr_right (or_iff_left ht).symm

/-- What the head of a unit says. -/
theorem judge_eq (s : AvccInput) (len : ℕ) :
    (HeadInside s.nalu len → ∃ s', judgeIsNewFrame { s with naluLen := len } s.nalu = .ok s' ∧
      (s'.isNewFrame ↔ s.BeginsFrame len) ∧ SamePos { s with naluLen := len } s') ∧
    (¬HeadInside s.nalu len →
      judgeIsNewFrame { s with naluLen := len } s.nalu = .error .outside) := by
  rw [AvccInput.BeginsFrame]
  cases hnalu : s.nalu with
  | nil => exact ⟨fun h => absurd rfl h.1, fun _ => rfl⟩
  | cons b nalu =>
    have htype : typeOf (b :: nalu) = b.toNat % 32 := rfl
    obtain ⟨hone, hslice⟩ := judged_type (b.toNat % 32)
    rw [judgeIsNewFrame]
    dsimp only
    by_cases h₁ : len = 1 ∧ typeOf (b :: nalu) ∈ [naluTypeSei, naluTypeSps, naluTypePps,
        naluTypeSubSps, naluTypeAud]
    · -- a unit of one byte
      rw [if_pos ⟨h₁.1, hone.2 (htype ▸ h₁.2)⟩]
      have hnot : ¬IsSlice (b :: nalu) len := fun h => absurd h.1 (by rw [h₁.1]; decide)
      refine ⟨fun _ => ⟨_, rfl, ?_, ⟨rfl, rfl, rfl, rfl, rfl, rfl⟩⟩,
        fun h => absurd ⟨cons_ne_nil b nalu, fun h' => absurd h' hnot⟩ h⟩
      have hbegins : (len = 1 ∧ typeOf (b :: nalu) ∈ [naluTypeSei, naluTypeSps, naluTypePps,
          naluTypeSubSps, naluTypeAud]) ∨ (IsSlice (b :: nalu) len ∧
            readFirstMb (sliceOf (b :: nalu)) = .ok (some 0)) := .inl h₁
      rw [Bool.or_eq_true, and_iff_left hbegins]
    · rw [if_neg fun h => h₁ ⟨h.1, htype ▸ hone.1 h.2⟩]
      by_cases h₂ : IsSlice (b :: nalu) len
      · rw [if_pos ⟨h₂.1, hslice.2 (htype ▸ h₂.2)⟩]
        have hdrop : (b :: nalu).drop (if b.toNat % 32 = naluTypePrefix ∨
            b.toNat % 32 = naluTypeSlcExt then 4 else 1) = sliceOf (b :: nalu) := rfl
        rw [hdrop]
        simp only [HeadInside, h₁, h₂, false_or, true_and, forall_const]
        rcases readFirstMb_cases (sliceOf (b :: nalu)) with hread | hread | ⟨firstMb, hread⟩
        · rw [hread]
          exact ⟨fun h => absurd rfl h.2, fun _ => rfl⟩
        · rw [hread]
          refine ⟨fun _ => ⟨_, rfl, ?_, ⟨rfl, rfl, rfl, rfl, rfl, rfl⟩⟩, fun h => ?_⟩
          · simp
          · exact absurd ⟨cons_ne_nil b nalu, by simp⟩ h
        · rw [hread]
          refine ⟨fun _ => ⟨_, rfl, ?_, ?_⟩, fun h => ?_⟩
          · by_cases hzero : firstMb = 0
            · simp [hzero]
            · simp only [hzero, if_false]
              split <;> simp [hzero]
          · split
            · exact ⟨rfl, rfl, rfl, rfl, rfl, rfl⟩
            · split <;> exact ⟨rfl, rfl, rfl, rfl, rfl, rfl⟩
          · exact absurd ⟨cons_ne_nil b nalu, by simp⟩ h
      · rw [if_neg fun h => h₂ ⟨h.1, htype ▸ hslice.1 h.2⟩]
        refine ⟨fun _ => ⟨_, rfl, ?_, ⟨rfl, rfl, rfl, rfl, rfl, rfl⟩⟩,
          fun h => absurd ⟨cons_ne_nil b nalu, fun h' => absurd h' h₂⟩ h⟩
        simp only [h₁, h₂, false_and, or_false, and_false]

/-! ### The rest of a unit -/

theorem storeCurNalu_eq (s : AvccInput) (nalu : List UInt8) :
    (storeReads s ≤ nalu.length → ∃ s', storeCurNalu s nalu = .ok s' ∧ SamePos s s') ∧
    (¬storeReads s ≤ nalu.length → storeCurNalu s nalu = .error .outside) := by
  rw [storeCurNalu]
  refine ⟨fun h => ?_, fun h => if_neg h⟩
  rw [if_pos h]
  split
  · refine ⟨_, rfl, ?_⟩
    split <;> split <;> exact ⟨rfl, rfl, rfl, rfl, rfl, rfl⟩
  · exact ⟨s, rfl, rfl, rfl, rfl, rfl, rfl, rfl⟩

variable {s : AvccInput}

/-- Of a unit that is inside no more is read than there is, unless it is HDR data of one
    byte. -/
theorem storeReads_le_iff (hpos : 0 < s.naluLen) (hlen : s.naluLen ≤ n) :
    storeReads s ≤ n ↔ (s.enableHdrMeta ∧ s.naluType = naluTypeUnspecified28 ∧ s.naluLen = 1 →
      2 ^ 32 + 1 ≤ n) := by
  have hhead : (if storesHead s.naluType then min headSyntaxMaxSize s.naluLen else 0) ≤ n := by
    split_ifs
    · exact (min_le_right _ _).trans hlen
    · exact Nat.zero_le n
  have hslice : (if storesSlice s.naluType then s.naluLen else 0) ≤ n := by
    split_ifs
    · exact hlen
    · exact Nat.zero_le n
  rw [storeReads, max_le_iff, max_le_iff, and_iff_right hhead, and_iff_right hslice]
  by_cases hmeta : s.enableHdrMeta ∧ s.naluType = naluTypeUnspecified28
  · rw [if_pos hmeta]
    rcases Nat.lt_or_ge 1 s.naluLen with hlt | hle
    · have hmod : (s.naluLen + 2 ^ 32 - 2) % 2 ^ 32 ≤ s.naluLen - 2 := by
        rw [Nat.sub_add_comm hlt, Nat.add_mod_right]
        exact Nat.mod_le _ _
      exact iff_of_true (by omega) fun h => absurd h.2.2 hlt.ne'
    · have hone : s.naluLen = 1 := le_antisymm hle hpos
      rw [hone]
      exact ⟨fun h _ => h, fun h => h ⟨hmeta.1, hmeta.2, rfl⟩⟩
  · rw [if_neg hmeta]
    exact iff_of_true (Nat.zero_le n) fun h => absurd ⟨h.1, h.2.1⟩ hmeta

theorem AvccInput.AtPacket.skip (h : s.AtPacket) (n : ℕ) : (s.skip n).AtPacket := by
  constructor
  · rw [AvccInput.skip, h.inLength, length_drop]
  · rw [AvccInput.skip, h.pktLength, length_drop]

theorem advance_of_le (h : s.AtPacket) (hn : n ≤ s.rest.length) : advance s n = .ok (s.skip n) :=
  if_pos ⟨h.pktLength ▸ hn, h.inLength ▸ hn⟩

theorem advance_of_lt (h : s.AtPacket) (hn : s.rest.length < n) : advance s n = .error .belowZero :=
  if_neg fun h' => not_le.2 hn (h.pktLength ▸ h'.1)

/-- The unit at the position is inside. -/
def UnitInside (enableHdrMeta : Bool) (nalu : List UInt8) (len : ℕ) : Prop :=
  len ≤ nalu.length ∧ (enableHdrMeta ∧ typeOf nalu = naluTypeUnspecified28 ∧ len = 1 →
    2 ^ 32 + 1 ≤ nalu.length)

/-- A unit is taken when it is inside, and then the position is behind it. -/
theorem takeUnit_eq (h : s.AtPacket) (hne : s.rest ≠ []) (hpos : 0 < s.naluLen) :
    (UnitInside s.enableHdrMeta s.rest s.naluLen →
      ∃ s', takeUnit s = .ok s' ∧ s'.AtPacket ∧ s'.startcodeFound ∧ s'.nalSize = s.nalSize ∧
        s'.rest = s.rest.drop s.naluLen) ∧
    (¬UnitInside s.enableHdrMeta s.rest s.naluLen →
      ∃ fault, fault ≠ .endless ∧ takeUnit s = .error fault) := by
  rw [takeUnit]
  split
  · rename_i hrest
    exact absurd hrest hne
  · rename_i b nalu hrest
    have htype : typeOf s.rest = b.toNat % 32 := by
      rw [hrest]
      rfl
    set s₁ : AvccInput := { s with
      naluType := b.toNat % 32, startcodeFound := false, endcodeFound := true }
    obtain ⟨hstore, hstore'⟩ := storeCurNalu_eq s₁ s.rest
    have hat {s₂ : AvccInput} (hpos₂ : SamePos s₁ s₂) : s₂.AtPacket :=
      ⟨by rw [hpos₂.inLength, hpos₂.rest]; exact h.inLength,
        by rw [hpos₂.pktLength, hpos₂.rest]; exact h.pktLength⟩
    by_cases hlen : s.naluLen ≤ s.rest.length
    · have hreads : storeReads s₁ ≤ s.rest.length ↔ (s.enableHdrMeta ∧
          typeOf s.rest = naluTypeUnspecified28 ∧ s.naluLen = 1 → 2 ^ 32 + 1 ≤ s.rest.length) := by
        rw [htype]
        exact storeReads_le_iff hpos hlen
      refine ⟨fun h' => ?_, fun h' => ?_⟩
      · obtain ⟨s₂, heq, hpos₂⟩ := hstore (hreads.2 h'.2)
        have hle₂ : s₂.naluLen ≤ s₂.rest.length := by
          rw [hpos₂.naluLen, hpos₂.rest]
          exact hlen
        have hskip₂ := (hat hpos₂).skip s₂.naluLen
        rw [heq]
        dsimp only [bind, Except.bind]
        rw [advance_of_le (hat hpos₂) hle₂]
        refine ⟨_, rfl, ⟨hskip₂.inLength, hskip₂.pktLength⟩, rfl, hpos₂.nalSize, ?_⟩
        change s₂.rest.drop s₂.naluLen = _
        rw [hpos₂.naluLen, hpos₂.rest]
      · rw [hstore' fun h'' => h' ⟨hlen, hreads.1 h''⟩]
        exact ⟨.outside, nofun, rfl⟩
    · refine ⟨fun h' => absurd h'.1 hlen, fun _ => ?_⟩
      by_cases hreads : storeReads s₁ ≤ s.rest.length
      · -- a head that is inside, of a unit that is not
        obtain ⟨s₂, heq, hpos₂⟩ := hstore hreads
        have hlt₂ : s₂.rest.length < s₂.naluLen := by
          rw [hpos₂.naluLen, hpos₂.rest]
          exact not_le.1 hlen
        rw [heq]
        dsimp only [bind, Except.bind]
        rw [advance_of_lt (hat hpos₂) hlt₂]
        exact ⟨.belowZero, nofun, rfl⟩
      · rw [hstore' hreads]
        exact ⟨.outside, nofun, rfl⟩

theorem AvccInput.nalInside_iff (s : AvccInput) :
    s.NalInside ↔ s.nalSize ≤ s.rest.length ∧ (0 < s.codedLen → s.codedLen < s.inLength →
      HeadInside s.nalu s.codedLen ∧ (¬s.BeginsFrame s.codedLen →
        UnitInside s.enableHdrMeta s.nalu s.codedLen)) :=
  Iff.rfl

/-- Where a round of the loop can lead. -/
def Next.From (s : AvccInput) : Next → Prop
  | .again s' => s'.AtPacket ∧ s'.startcodeFound ∧ s'.nalSize = s.nalSize ∧
      s.nalSize + s.codedLen ≤ s.rest.length ∧ 0 < s.codedLen ∧
      s'.rest = s.rest.drop (s.nalSize + s.codedLen)
  | .leave s' | .failed s' => s'.AtPacket

theorem SamePos.atPacket {s' : AvccInput} (h : SamePos s s') (hat : s.AtPacket) : s'.AtPacket :=
  ⟨by rw [h.inLength, h.rest, hat.inLength], by rw [h.pktLength, h.rest, hat.pktLength]⟩

theorem avccUnit_eq (h : s.AtPacket) {len : ℕ} (hlen : len = s.codedLen) (hpos : 0 < len)
    (hsize : s.nalSize ≤ s.rest.length) :
    (HeadInside s.nalu len ∧ (¬s.BeginsFrame len → UnitInside s.enableHdrMeta s.nalu len) →
      ∃ next, avccUnit { s with naluLen := len } = .ok next ∧ next.From s) ∧
    (¬(HeadInside s.nalu len ∧ (¬s.BeginsFrame len → UnitInside s.enableHdrMeta s.nalu len)) →
      ∃ fault, fault ≠ .endless ∧ avccUnit { s with naluLen := len } = .error fault) := by
  obtain ⟨hjudge, hjudge'⟩ := judge_eq s len
  rw [avccUnit]
  change (_ → ∃ next, (judgeIsNewFrame { s with naluLen := len } s.nalu).bind _ = _ ∧ _) ∧
    (_ → ∃ fault, _ ∧ (judgeIsNewFrame { s with naluLen := len } s.nalu).bind _ = _)
  by_cases hhead : HeadInside s.nalu len
  · obtain ⟨s₁, heq, hbegins, hpos₁⟩ := hjudge hhead
    have hat₁ : s₁.AtPacket := hpos₁.atPacket ⟨h.inLength, h.pktLength⟩
    rw [heq, and_iff_right hhead]
    dsimp only [Except.bind]
    by_cases hnew : s.BeginsFrame len
    · rw [if_pos (hbegins.2 hnew)]
      exact ⟨fun _ => ⟨_, rfl, ⟨hat₁.inLength, hat₁.pktLength⟩⟩,
        fun h' => absurd (fun hnot => absurd hnew hnot) h'⟩
    · rw [if_neg fun h' => hnew (hbegins.1 h')]
      have hsize₁ : s₁.nalSize ≤ s₁.rest.length := by
        rw [hpos₁.nalSize, hpos₁.rest]
        exact hsize
      have hskip := hat₁.skip s₁.nalSize
      have hrest : (s₁.skip s₁.nalSize).rest = s.nalu := by
        rw [AvccInput.skip, hpos₁.nalSize, hpos₁.rest]
        rfl
      have hlen₁ : (s₁.skip s₁.nalSize).naluLen = len := hpos₁.naluLen
      have hmeta : (s₁.skip s₁.nalSize).enableHdrMeta = s.enableHdrMeta := hpos₁.enableHdrMeta
      obtain ⟨htake, htake'⟩ := takeUnit_eq hskip (hrest ▸ hhead.1) (hlen₁ ▸ hpos)
      rw [hrest, hlen₁, hmeta] at htake htake'
      rw [takeNalu, advance_of_le hat₁ hsize₁]
      change (_ → ∃ next, ((takeUnit (s₁.skip s₁.nalSize)).bind _) = _ ∧ _) ∧
        (_ → ∃ fault, _ ∧ ((takeUnit (s₁.skip s₁.nalSize)).bind _) = _)
      refine ⟨fun h' => ?_, fun h' => ?_⟩
      · obtain ⟨s₂, heq₂, hat₂, hcode₂, hsize₂, hrest₂⟩ := htake (h' hnew)
        rw [heq₂]
        dsimp only [Except.bind, pure, Except.pure]
        refine ⟨_, rfl, ?_⟩
        rw [checkLeft]
        split_ifs
        · exact ⟨rfl, rfl⟩
        · have hunit := (h' hnew).1
          rw [AvccInput.nalu, length_drop] at hunit
          refine ⟨hat₂, hcode₂, hsize₂.trans hpos₁.nalSize, by omega, hlen ▸ hpos, ?_⟩
          rw [hrest₂, AvccInput.nalu, drop_drop, hlen]
      · obtain ⟨fault, hne, heq₂⟩ := htake' fun hin => h' fun _ => hin
        rw [heq₂]
        exact ⟨fault, hne, rfl⟩
  · rw [hjudge' hhead]
    exact ⟨fun h' => absurd h'.1 hhead, fun _ => ⟨.outside, nofun, rfl⟩⟩

/-- A round of the loop ends without a fault when the unit is inside. -/
theorem avccRound_eq (h : s.AtPacket) (hcode : s.startcodeFound) (hsize : 1 ≤ s.nalSize)
    (hsize' : s.nalSize ≤ 4) :
    (s.NalInside → ∃ next, avccRound s = .ok next ∧ next.From s) ∧
    (¬s.NalInside → ∃ fault, fault ≠ .endless ∧ avccRound s = .error fault) := by
  rw [s.nalInside_iff, avccRound, if_pos hcode, parseNalSize_eq hsize hsize']
  by_cases hfield : s.nalSize ≤ s.rest.length
  · rw [if_pos hfield, and_iff_right hfield]
    change (_ → ∃ next, (if s.codedLen = 0 ∨ s.codedLen ≥ s.inLength then _ else _) = _ ∧ _) ∧
      (_ → ∃ fault, _ ∧ (if s.codedLen = 0 ∨ s.codedLen ≥ s.inLength then _ else _) = _)
    by_cases hreject : s.codedLen = 0 ∨ s.codedLen ≥ s.inLength
    · rw [if_pos hreject]
      refine ⟨fun _ => ⟨_, rfl, ⟨rfl, rfl⟩⟩, fun h' => absurd (fun hpos hlt => ?_) h'⟩
      omega
    · rw [if_neg hreject]
      obtain ⟨hzero, hlt⟩ := not_or.1 hreject
      have hpos := Nat.pos_of_ne_zero hzero
      obtain ⟨hunit, hunit'⟩ := avccUnit_eq h rfl hpos hfield
      exact ⟨fun h' => hunit (h' hpos (not_le.1 hlt)),
        fun h' => hunit' fun hin => h' fun _ _ => hin⟩
  · rw [if_neg hfield]
    exact ⟨fun h' => absurd h'.1 hfield, fun _ => ⟨.outside, nofun, rfl⟩⟩

/-- The loop ends without a fault when all the units it comes to are inside. -/
theorem avccLoop_eq {fuel : ℕ} (h : s.AtPacket) (hcode : s.startcodeFound) (hsize : 1 ≤ s.nalSize)
    (hsize' : s.nalSize ≤ 4) (hfuel : s.rest.length < fuel) :
    ((∃ next, avccLoop fuel s = .ok next) ↔ ∀ v ∈ avccVisits fuel s, v.NalInside) ∧
    avccLoop fuel s ≠ .error .endless ∧
    (∀ next, avccLoop fuel s = .ok next → ∃ s', (next = .leave s' ∨ next = .failed s') ∧
      s'.AtPacket) ∧
    (∀ v ∈ avccVisits fuel s, v.AtPacket ∧ v.nalSize = s.nalSize ∧ v.startcodeFound) := by
  induction fuel generalizing s with
  | zero => exact absurd hfuel (Nat.not_lt_zero _)
  | succ fuel ih =>
    rw [avccLoop, avccVisits]
    by_cases hzero : s.inLength = 0
    · rw [if_pos hzero, if_pos hzero]
      refine ⟨iff_of_true ⟨_, rfl⟩ fun v hv => absurd hv not_mem_nil, nofun, ?_,
        fun v hv => absurd hv not_mem_nil⟩
      rintro next hnext
      obtain rfl := Except.ok.inj hnext
      exact ⟨s, .inl rfl, h⟩
    · rw [if_neg hzero, if_neg hzero]
      obtain ⟨hround, hround'⟩ := avccRound_eq h hcode hsize hsize'
      by_cases hin : s.NalInside
      · obtain ⟨next, heq, hfrom⟩ := hround hin
        rw [heq, forall_mem_cons, forall_mem_cons, and_iff_right hin]
        dsimp only [bind, Except.bind]
        cases next with
        | again s' =>
          obtain ⟨hat', hcode', hsize₁, hle, hpos, hrest⟩ := hfrom
          have hlen : s'.rest.length < fuel := by
            rw [hrest, length_drop]
            omega
          obtain ⟨hiff, hendless, hends, hall⟩ :=
            ih hat' hcode' (hsize₁ ▸ hsize) (hsize₁ ▸ hsize') hlen
          exact ⟨hiff, hendless, hends, ⟨h, rfl, hcode⟩, fun v hv => hsize₁ ▸ hall v hv⟩
        | leave s' =>
          refine ⟨iff_of_true ⟨_, rfl⟩ fun v hv => absurd hv not_mem_nil, nofun, ?_,
            ⟨h, rfl, hcode⟩, fun v hv => absurd hv not_mem_nil⟩
          intro next hnext
          obtain rfl := Except.ok.inj hnext
          exact ⟨s', .inl rfl, hfrom⟩
        | failed s' =>
          refine ⟨iff_of_true ⟨_, rfl⟩ fun v hv => absurd hv not_mem_nil, nofun, ?_,
            ⟨h, rfl, hcode⟩, fun v hv => absurd hv not_mem_nil⟩
          intro next hnext
          obtain rfl := Except.ok.inj hnext
          exact ⟨s', .inr rfl, hfrom⟩
      · obtain ⟨fault, hne, heq⟩ := hround' hin
        rw [heq, forall_mem_cons]
        dsimp only [bind, Except.bind]
        refine ⟨iff_of_false ?_ fun hall => hin hall.1, fun h' => hne (Except.error.inj h'), ?_, ?_⟩
        · rintro ⟨next, hnext⟩
          exact absurd hnext nofun
        · intro next hnext
          exact absurd hnext nofun
        · intro v hv
          rcases mem_cons.1 hv with rfl | hv
          · exact ⟨h, rfl, hcode⟩
          · exact absurd hv not_mem_nil

/-- Behind a unit that is taken, the position is as much further as its length field and it
    are long. -/
theorem avccRound_again {v s' : AvccInput} (h : v.AtPacket) (hcode : v.startcodeFound)
    (hsize : 1 ≤ v.nalSize) (hsize' : v.nalSize ≤ 4) (hround : avccRound v = .ok (.again s')) :
    s'.rest = v.rest.drop (v.nalSize + v.codedLen) ∧
      v.nalSize + v.codedLen + s'.inLength = v.inLength ∧
      v.nalSize + v.codedLen + s'.pktLength = v.pktLength := by
  obtain ⟨hok, herr⟩ := avccRound_eq h hcode hsize hsize'
  by_cases hin : v.NalInside
  · obtain ⟨next, heq, hfrom⟩ := hok hin
    obtain rfl := Except.ok.inj (heq.symm.trans hround)
    obtain ⟨hat', -, -, hle, -, hrest⟩ := hfrom
    have hlen := congrArg List.length hrest
    rw [length_drop] at hlen
    refine ⟨hrest, ?_, ?_⟩
    · rw [hat'.inLength, h.inLength, hlen, Nat.add_sub_cancel' hle]
    · rw [hat'.pktLength, h.pktLength, hlen, Nat.add_sub_cancel' hle]
  · obtain ⟨fault, -, heq⟩ := herr hin
    exact absurd (heq.symm.trans hround) nofun

theorem endFrame_atPacket (h : s.AtPacket) : (endFrame s).AtPacket := by
  have hclear : (clearExtraHeader s).AtPacket := by
    rw [clearExtraHeader]
    split
    · exact h
    · exact ⟨h.inLength, h.pktLength⟩
  rw [endFrame]
  split
  · dsimp only
    split
    · exact ⟨hclear.inLength, hclear.pktLength⟩
    · exact ⟨h.inLength, h.pktLength⟩
  · exact h

/-- The units of a packet: a call ends without a fault exactly when all the units it comes
    to are inside, and it always ends. -/
theorem data_inside_iff (h : s.AtPacket) (hcode : s.startcodeFound) (hsize : 1 ≤ s.nalSize)
    (hsize' : s.nalSize ≤ 4) :
    ((∃ s', parsePrepareAvccData s = .ok s') ↔ s.pktEos ∨
      ∀ v ∈ avccVisits (s.inLength + 1) { s with taskValid := false }, v.NalInside) ∧
    parsePrepareAvccData s ≠ .error .endless ∧
    ∀ s', parsePrepareAvccData s = .ok s' → s'.AtPacket := by
  rw [parsePrepareAvccData]
  dsimp only
  have h₀ : ({ s with taskValid := false } : AvccInput).AtPacket := ⟨h.inLength, h.pktLength⟩
  have hfuel : s.rest.length < s.inLength + 1 := h.inLength ▸ Nat.lt_succ_self _
  by_cases heos : s.pktEos
  · rw [if_pos heos]
    refine ⟨iff_of_true ⟨_, rfl⟩ (.inl heos), nofun, fun s' hs' => ?_⟩
    rw [← Except.ok.inj hs']
    exact ⟨h.inLength, h.pktLength⟩
  · rw [if_neg heos, if_neg (Nat.pos_iff_ne_zero.1 hsize), or_iff_right heos]
    obtain ⟨hiff, hendless, hends, -⟩ := avccLoop_eq h₀ hcode hsize hsize' hfuel
    rw [← hiff]
    cases hloop : avccLoop (s.inLength + 1) { s with taskValid := false } with
    | error fault =>
      rw [hloop] at hendless
      exact ⟨iff_of_false (fun ⟨s', hs'⟩ => absurd hs' nofun)
          fun ⟨next, hnext⟩ => absurd hnext nofun,
        hendless ∘ fun h' => congrArg _ (Except.error.inj h'), fun s' hs' => absurd hs' nofun⟩
    | ok next =>
      obtain ⟨s₁, rfl | rfl, hat₁⟩ := hends next hloop
      · refine ⟨iff_of_true ⟨_, rfl⟩ ⟨_, rfl⟩, nofun, fun s' hs' => ?_⟩
        rw [← Except.ok.inj hs']
        exact endFrame_atPacket hat₁
      · refine ⟨iff_of_true ⟨_, rfl⟩ ⟨_, rfl⟩, nofun, fun s' hs' => ?_⟩
        rw [← Except.ok.inj hs']
        exact hat₁

/-! ## Parameter sets that are inside -/

/-- The length in front of a parameter set at the offset `o`. -/
def setLen (o : ℕ) : ℕ := u16At (data.getD o 0) (data.getD (o + 1) 0)

/-- The offset of a parameter set, from that of the first one. -/
def setOffset (data : List UInt8) (o : ℕ) : ℕ → ℕ
  | 0 => o
  | i + 1 => setOffset data o i + 2 + setLen data (setOffset data o i)

/-- The lengths of `n` parameter sets are inside, and as much of the sets as is stored. -/
def SetsInside (o n : ℕ) : Prop :=
  ∀ i < n, setOffset data o i + 2 + min headSyntaxMaxSize (setLen data (setOffset data o i)) ≤
    data.length

instance (data : List UInt8) (o n : ℕ) : Decidable (SetsInside data o n) :=
  inferInstanceAs (Decidable (∀ i < n, _))

/-- The packet is rejected, or its parameter sets and the number of the second ones are
    inside. -/
def HeaderInside : Prop :=
  data.length < 7 ∨ data.getD 0 0 ≠ 1 ∨
    let pps := setOffset data 6 ((data.getD 5 0).toNat % 32)
    SetsInside data 6 ((data.getD 5 0).toNat % 32) ∧ pps < data.length ∧
      SetsInside data (pps + 1) (data.getD pps 0).toNat

theorem setOffset_succ (o i : ℕ) :
    setOffset data o (i + 1) = setOffset data (o + 2 + setLen data o) i := by
  induction i with
  | zero => rfl
  | succ i ih =>
    rw [setOffset, ih, setOffset]

theorem setsInside_succ (o n : ℕ) : SetsInside data o (n + 1) ↔
      o + 2 + min headSyntaxMaxSize (setLen data o) ≤ data.length ∧
        SetsInside data (o + 2 + setLen data o) n := by
  constructor
  · intro h
    refine ⟨h 0 (Nat.zero_lt_succ n), fun i hi => ?_⟩
    have hi' := h (i + 1) (Nat.succ_lt_succ hi)
    rwa [setOffset_succ] at hi'
  · rintro ⟨hfirst, hrest⟩ i hi
    cases i with
    | zero => exact hfirst
    | succ i =>
      rw [setOffset_succ]
      exact hrest i (Nat.lt_of_succ_lt_succ hi)

/-- Of a parameter set the head is stored. -/
theorem storeReads_set (htype : s.naluType = naluTypeSps ∨ s.naluType = naluTypePps) :
    storeReads s = min headSyntaxMaxSize s.naluLen := by
  have hhead : storesHead s.naluType := by
    rcases htype with h | h <;> rw [h] <;> decide
  have hslice : ¬storesSlice s.naluType := by
    rcases htype with h | h <;> rw [h] <;> decide
  have hmeta : ¬(s.enableHdrMeta ∧ s.naluType = naluTypeUnspecified28) := by
    rintro ⟨-, h'⟩
    rcases htype with h | h <;> rw [h] at h' <;> exact absurd h' (by decide)
  rw [storeReads, if_pos hhead, if_neg hslice, if_neg hmeta, max_self, Nat.max_zero]

/-- The parameter sets from an offset on are stored when they are inside. -/
theorem storeSets_eq {naluType : ℕ} (htype : naluType = naluTypeSps ∨ naluType = naluTypePps)
    (data : List UInt8) (n o : ℕ) (s : AvccInput) :
    (SetsInside data o n → ∃ s', storeSets naluType n s (data.drop o) =
      .ok (s', data.drop (setOffset data o n))) ∧
    (¬SetsInside data o n → storeSets naluType n s (data.drop o) = .error .outside) := by
  induction n generalizing o s with
  | zero => exact ⟨fun _ => ⟨s, rfl⟩, fun h => absurd (fun i hi => absurd hi (Nat.not_lt_zero i)) h⟩
  | succ n ih =>
    rw [setsInside_succ, setOffset_succ]
    by_cases hfield : o + 2 ≤ data.length
    · have hdrop : data.drop o = data.getD o 0 :: data.getD (o + 1) 0 :: data.drop (o + 2) := by
        rw [drop_eq_getElem_cons (by omega : o < data.length),
          drop_eq_getElem_cons (by omega : o + 1 < data.length),
          getD_eq_getElem _ _ (by omega : o < data.length),
          getD_eq_getElem _ _ (by omega : o + 1 < data.length)]
      rw [hdrop, storeSets]
      change (_ → ∃ s', (storeCurNalu { s with naluLen := setLen data o, naluType }
          (data.drop (o + 2))).bind _ = _) ∧ (_ → (storeCurNalu
            { s with naluLen := setLen data o, naluType } (data.drop (o + 2))).bind _ = _)
      obtain ⟨hstore, hstore'⟩ := storeCurNalu_eq { s with naluLen := setLen data o, naluType }
        (data.drop (o + 2))
      rw [storeReads_set htype, length_drop] at hstore hstore'
      by_cases hin : o + 2 + min headSyntaxMaxSize (setLen data o) ≤ data.length
      · obtain ⟨s₁, heq, -⟩ := hstore (by dsimp only; omega)
        rw [heq, and_iff_right hin]
        have hnext := ih (o + 2 + setLen data o) s₁
        rw [← drop_drop] at hnext
        exact hnext
      · rw [hstore' (by dsimp only; omega)]
        exact ⟨fun h => absurd h.1 hin, fun _ => rfl⟩
    · refine ⟨fun h => absurd h.1 (by omega), fun _ => ?_⟩
      have hlen : (data.drop o).length < 2 := by
        rw [length_drop]
        omega
      match hdrop : data.drop o with
      | [] => rfl
      | [_] => rfl
      | a :: b :: l =>
        rw [hdrop, length_cons, length_cons] at hlen
        omega

/-- The header of a packet is taken without a fault exactly when what is looked at is
    inside. -/
theorem header_inside_iff (s : AvccInput) (data : List UInt8) :
    (∃ s', parsePrepareAvccHeader s data = .ok s') ↔ HeaderInside data := by
  match data with
  | [] | [_] | [_, _] | [_, _, _] | [_, _, _, _] | [_, _, _, _, _] =>
    exact iff_of_true ⟨s, rfl⟩ (.inl (by simp))
  | version :: profile :: x :: level :: sizes :: numSps :: pdata =>
    rw [parsePrepareAvccHeader, HeaderInside]
    set data := version :: profile :: x :: level :: sizes :: numSps :: pdata with hdata
    have hsps : (data.getD 5 0) = numSps := rfl
    have hversion : data.getD 0 0 = version := rfl
    have hpdata : pdata = data.drop 6 := rfl
    rw [hsps, hversion, hpdata]
    split_ifs with hlen hone
    · exact iff_of_true ⟨s, rfl⟩ (.inl hlen)
    · exact iff_of_true ⟨s, rfl⟩ (.inr (.inl hone))
    · rw [or_iff_right hlen, or_iff_right hone]
      dsimp only
      set s₁ : AvccInput := { s with
        profile, level, nalSize := 1 + sizes.toNat % 4, spsNum := numSps.toNat % 32 }
      obtain ⟨hstore, hstore'⟩ := storeSets_eq (.inl rfl) data (numSps.toNat % 32) 6 s₁
      set pps := setOffset data 6 (numSps.toNat % 32)
      by_cases hsps : SetsInside data 6 (numSps.toNat % 32)
      · obtain ⟨s₂, heq⟩ := hstore hsps
        rw [heq, and_iff_right hsps]
        dsimp only [bind, Except.bind]
        by_cases hpps : pps < data.length
        · rw [and_iff_right hpps, drop_eq_getElem_cons hpps, getD_eq_getElem _ _ hpps]
          dsimp only
          set s₃ : AvccInput := { s₂ with ppsNum := data[pps].toNat }
          obtain ⟨hstore₃, hstore₃'⟩ := storeSets_eq (.inr rfl) data data[pps].toNat (pps + 1) s₃
          by_cases hset : SetsInside data (pps + 1) data[pps].toNat
          · obtain ⟨s₄, heq₄⟩ := hstore₃ hset
            rw [heq₄]
            exact iff_of_true ⟨_, rfl⟩ hset
          · rw [hstore₃' hset]
            exact iff_of_false (fun ⟨s', hs'⟩ => absurd hs' nofun) hset
        · rw [drop_eq_nil_of_le (not_lt.1 hpps)]
          exact iff_of_false (fun ⟨s', hs'⟩ => absurd hs' nofun) fun h => hpps h.1
      · rw [hstore' hsps]
        exact iff_of_false (fun ⟨s', hs'⟩ => absurd hs' nofun) fun h => hsps h.1
/-! ## Input that stays inside -/

/-- An extra data packet is taken without a fault. -/
def HeaderStaysInside (s : AvccInput) (data : List UInt8) : Prop :=
  ∃ s', parsePrepareAvccHeader s data = .ok s'

/-- A packet of data is taken without a fault, the lengths stay those of what is left, and of
    a unit that is taken the length field and the coded length are taken. -/
structure DataStaysInside (s : AvccInput) : Prop where
  ends : ∃ s', parsePrepareAvccData s = .ok s' ∧ s'.AtPacket
  takes : ∀ v ∈ avccVisits (s.inLength + 1) { s with taskValid := false }, ∀ s',
    avccRound v = .ok (.again s') →
      s'.rest = v.rest.drop (v.nalSize + v.codedLen) ∧
        v.nalSize + v.codedLen + s'.inLength = v.inLength ∧
        v.nalSize + v.codedLen + s'.pktLength = v.pktLength

/-- Length-prefixed input stays inside the packet exactly when the parameter sets of an extra
    data packet and the units that the loop comes to are inside. -/
theorem avcc_inside_iff (s : AvccInput) (data : List UInt8) (h : s.AtPacket)
    (hcode : s.startcodeFound) (hsize : 1 ≤ s.nalSize) (hsize' : s.nalSize ≤ 4) :
    (HeaderStaysInside s data ↔ HeaderInside data) ∧
    (DataStaysInside s ↔ s.pktEos ∨
      ∀ v ∈ avccVisits (s.inLength + 1) { s with taskValid := false }, v.NalInside) ∧
    parsePrepareAvccData s ≠ .error .endless := by
  obtain ⟨hiff, hendless, hat⟩ := data_inside_iff h hcode hsize hsize'
  have h₀ : ({ s with taskValid := false } : AvccInput).AtPacket := ⟨h.inLength, h.pktLength⟩
  have hfuel : s.rest.length < s.inLength + 1 := h.inLength ▸ Nat.lt_succ_self _
  obtain ⟨-, -, -, hall⟩ := avccLoop_eq h₀ hcode hsize hsize' hfuel
  refine ⟨header_inside_iff s data, ?_, hendless⟩
  rw [← hiff]
  constructor
  · rintro ⟨⟨s', heq, -⟩, -⟩
    exact ⟨s', heq⟩
  · rintro ⟨s', heq⟩
    refine ⟨⟨s', heq, hat s' heq⟩, fun v hv s₁ hround => ?_⟩
    obtain ⟨hatv, hsizev, hcodev⟩ := hall v hv
    exact avccRound_again hatv hcodev (hsizev ▸ hsize) (hsizev ▸ hsize') hround

/-- A header with two parameter sets, and a packet of one unit. -/
theorem avcc_inside_iff_unit :
    let s : AvccInput :=
      { nalSize := 4, rest := [0, 0, 0, 2, 9, 16], inLength := 6, pktLength := 6 }
    (HeaderStaysInside s [1, 66, 0, 30, 255, 225, 0, 1, 103, 1, 0, 1, 104] ↔
      HeaderInside [1, 66, 0, 30, 255, 225, 0, 1, 103, 1, 0, 1, 104]) ∧
    (DataStaysInside s ↔ s.pktEos ∨
      ∀ v ∈ avccVisits (s.inLength + 1) { s with taskValid := false }, v.NalInside) ∧
    parsePrepareAvccData s ≠ .error .endless :=
  avcc_inside_iff _ _ ⟨rfl, rfl⟩ rfl (by decide) (by decide)

/-- A unit that is shorter than what is left, but not with its length field: the length goes
    below zero. -/
theorem length_below_zero : ¬∀ (s : AvccInput) (data : List UInt8), s.AtPacket →
    s.startcodeFound → 1 ≤ s.nalSize → s.nalSize ≤ 4 →
      HeaderStaysInside s data ∧ DataStaysInside s := by
  intro h
  obtain ⟨-, ⟨s', heq, -⟩, -⟩ := h
    { nalSize := 4, rest := [0, 0, 0, 3, 9], inLength := 5, pktLength := 5 } []
    ⟨rfl, rfl⟩ rfl (by decide) (by decide)
  have hfault : parsePrepareAvccData
      { nalSize := 4, rest := [0, 0, 0, 3, 9], inLength := 5, pktLength := 5 } =
        .error .belowZero := by
    decide
  exact absurd (hfault.symm.trans heq) nofun

end Libmpp.H264d
