import Mathlib

/-!
# The frame buffer of the H.265 decoder

The decoder keeps its pictures in `DPB`, an array of frames. A frame in use holds a buffer
slot, `slot_index`, and is marked with flags: it waits for output, or it is a short-term or a
long-term reference. A frame with no flag left is released (`unrefFrame`).

* `setNewRef` takes a frame for the picture that is decoded;
* `addCandidateRef` looks up a frame for an entry of the reference picture set, and makes
  one up when it is missing;
* `clearRefs` and `flushDpb` take the marks from all frames.

A slot is named by the number of slots taken before it, so no two frames ever have the same.
-/

namespace Libmpp.H265d

/-- `MAX_DPB_SIZE` -/
abbrev maxDpbSize : ℕ := 17

/-- `MAX_REFS`, the entries of a reference picture list. -/
abbrev maxRefs : ℕ := 16

/-- `INT_MAX`, the order count of a frame that is not in use. -/
abbrev intMax : ℤ := 2147483647

/-- `INT_MIN` -/
abbrev intMin : ℤ := -2147483648

/-- A number as an `RK_S32` holds it. -/
def wrap32 (x : ℤ) : ℤ := x.bmod (2 ^ 32)

/-- `NALUnitType`, with the types that have no name by their code. -/
inductive NalUnitType
  | trailN | trailR | tsaN | tsaR | stsaN | stsaR | radlN | radlR | raslN | raslR
  | blaWLp | blaWRadl | blaNLp | idrWRadl | idrNLp | craNut
  | vps | sps | pps | aud | eosNut | eobNut | fdNut | seiPrefix | seiSuffix | unspec62
  | other (code : ℕ)
deriving DecidableEq

namespace NalUnitType

/-- `IS_IDR` -/
def isIdr (t : NalUnitType) : Bool := t = .idrWRadl || t = .idrNLp

/-- `IS_BLA` -/
def isBla (t : NalUnitType) : Bool := t = .blaWRadl || t = .blaWLp || t = .blaNLp

/-- `IS_CRA` -/
def isCra (t : NalUnitType) : Bool := t = .craNut

/-- `IS_IRAP`, the codes 16 to 23. -/
def isIrap (t : NalUnitType) : Bool :=
  t.isIdr || t.isBla || t.isCra || t = .other 22 || t = .other 23

end NalUnitType

/-- `HEVC_FRAME_FLAG_OUTPUT`, `HEVC_FRAME_FLAG_SHORT_REF` and `HEVC_FRAME_FLAG_LONG_REF`. -/
structure FrameFlags where
  output : Bool := false
  shortRef : Bool := false
  longRef : Bool := false
deriving DecidableEq

namespace FrameFlags

/-- Both reference flags. -/
def refs : FrameFlags := { shortRef := true, longRef := true }

/-- All flags. -/
def all : FrameFlags := { output := true, shortRef := true, longRef := true }

/-- `flags &= ~clr` -/
def without (f clr : FrameFlags) : FrameFlags where
  output := f.output && !clr.output
  shortRef := f.shortRef && !clr.shortRef
  longRef := f.longRef && !clr.longRef

/-- The frame is marked as a reference. -/
def isRef (f : FrameFlags) : Bool := f.shortRef || f.longRef

end FrameFlags

/-- `HEVCFrame`. A frame that is not in use has no slot, 0xff in the source. -/
structure HEVCFrame where
  poc : ℤ := intMax
  sequence : ℕ := 0
  flags : FrameFlags := {}
  slotIndex : Option ℕ := none
  errorFlag : Bool := false
deriving DecidableEq

/-- `RPSType` -/
inductive RPSType
  | stCurrBef | stCurrAft | stFoll | ltCurr | ltFoll
deriving DecidableEq

/-- An entry of `RefPicList`: the order count of the frame, and where it is in the buffer. -/
structure RefPic where
  poc : ℤ
  ref : Fin maxDpbSize
deriving DecidableEq

/-- `ShortTermRPS`: the pictures in their order as `delta_poc` and `used`. -/
structure ShortTermRPS where
  numNegativePics : ℕ
  deltaPocs : List (ℤ × Bool)
deriving DecidableEq

/-- `LongTermRPS`: the pictures as `poc` and `used`. -/
abbrev LongTermRPS := List (ℤ × Bool)

/-- `HEVCSPS`: of its fields those that the frame buffer depends on, and all others as one
    value. `numReorderPics` is that of the highest sub-layer. -/
structure HEVCSPS where
  spsId : ℕ
  log2MaxPocLsb : ℕ
  numReorderPics : ℕ
  longTermRefPics : Option (List (ℕ × Bool)) := none
  others : List ℕ := []
deriving DecidableEq

/-- `RecoveryPoint` -/
structure RecoveryPoint where
  validFlag : Bool := false
  recoveryFrameCnt : ℤ := 0
  firstFrmValid : Bool := false
  firstFrmId : ℤ := 0
  firstFrmRefMissing : Bool := false
  recoveryPicId : ℤ := 0
deriving DecidableEq

/-- The configuration in `MppDecCfgSet`. -/
structure MppDecBaseCfg where
  fastOut : Bool := false
  enableFastPlay : Bool := false
  disableError : Bool := false
deriving DecidableEq

/-- `HEVCContext`, with the slots taken so far (`slots`) and the display queue (`display`),
    which are behind `s->slots`, and with a history that the decoder does not keep: how often
    `seqDecode` was moved on (`era`), the pictures that got a frame (`pictures`), each with
    the slot of its frame and the era it came in, the slots of the frames that were made up
    (`madeUp`), and the buffer as it was when a frame went to the display queue (`shown`). -/
structure HEVCContext where
  dpb : Fin maxDpbSize → HEVCFrame := fun _ => {}
  seqDecode : ℕ := 0
  seqOutput : ℕ := 0
  poc : ℤ := 0
  pocTid0 : ℤ := 0
  maxRa : ℤ := intMax
  ref : Option (Fin maxDpbSize) := none
  sps : Option HEVCSPS := none
  nalUnitType : NalUnitType := .trailN
  firstNalType : Option NalUnitType := none
  firstSliceInPicFlag : Bool := false
  shortTermRps : Option ShortTermRPS := none
  longTermRps : LongTermRPS := []
  rps : RPSType → List RefPic := fun _ => []
  missRefFlag : Bool := false
  isDecoded : Bool := false
  firstIFastPlay : Bool := false
  recovery : RecoveryPoint := {}
  slots : ℕ := 0
  display : List ℕ := []
  era : ℕ := 0
  pictures : List (ℕ × ℕ) := []
  madeUp : List ℕ := []
  shown : List ((Fin maxDpbSize → HEVCFrame) × Fin maxDpbSize) := []

variable (s : HEVCContext)

/-- The context with another frame at `i`. -/
def HEVCContext.setFrame (i : Fin maxDpbSize) (f : HEVCFrame) : HEVCContext :=
  { s with dpb := Function.update s.dpb i f }

@[simp] theorem HEVCContext.setFrame_same (i : Fin maxDpbSize)
    (f : HEVCFrame) : (s.setFrame i f).dpb i = f := Function.update_self ..

theorem HEVCContext.setFrame_of_ne {s : HEVCContext} {i j : Fin maxDpbSize} {f : HEVCFrame}
    (h : j ≠ i) : (s.setFrame i f).dpb j = s.dpb j := Function.update_of_ne h ..

/-- `mpp_hevc_unref_frame`: the frame loses the flags `clr`, and is released when it has
    none left. -/
def unrefFrame (f : HEVCFrame) (clr : FrameFlags) : HEVCFrame :=
  if f.slotIndex = none then f
  else
    let flags := f.flags.without clr
    if flags = {} then
      { f with flags, poc := intMax, slotIndex := none, errorFlag := false }
    else { f with flags }

/-- `mpp_hevc_unref_frame` for all frames. -/
def unrefAll (clr : FrameFlags) : HEVCContext :=
  { s with dpb := fun i => unrefFrame (s.dpb i) clr }

/-- `mpp_hevc_clear_refs` -/
def clearRefs : HEVCContext := unrefAll s .refs

/-- `mpp_hevc_flush_dpb` -/
def flushDpb : HEVCContext := unrefAll s .all

/-- The first frame that is not in use. -/
def HEVCContext.firstFree : Option (Fin maxDpbSize) :=
  Fin.find? fun i => (s.dpb i).slotIndex.isNone

/-- `alloc_frame`: the first frame that is not in use gets a slot. -/
def allocFrame : Option (Fin maxDpbSize × HEVCContext) :=
  s.firstFree.map fun i =>
    (i, { s.setFrame i { s.dpb i with slotIndex := some s.slots } with slots := s.slots + 1 })

/-- The frame is in use in the current sequence. -/
def HEVCContext.inSequence (i : Fin maxDpbSize) : Bool :=
  (s.dpb i).slotIndex.isSome && (s.dpb i).sequence = s.seqDecode

/-- `mpp_hevc_set_new_ref`: a frame for the picture that is decoded, unless the sequence has
    one with its order count or the buffer is full. -/
def setNewRef (poc : ℤ) : Option HEVCContext :=
  if ∃ i, s.inSequence i ∧ (s.dpb i).poc = poc then none
  else
    (allocFrame s).map fun (i, s') =>
      { s'.setFrame i { s'.dpb i with
          poc, sequence := s.seqDecode, flags := { output := true, shortRef := true } } with
        ref := some i
        pictures := s.pictures ++ [(s.slots, s.era)] }

/-- `LtMask + 1` -/
def HEVCContext.maxPocLsb : ℤ := 2 ^ (s.sps.map (·.log2MaxPocLsb)).getD 0

/-- `find_ref_idx`: the frame of the current sequence whose low bits are `poc`, or else the
    frame whose order count is `poc`. -/
def findRefIdx (poc : ℤ) : Option (Fin maxDpbSize) :=
  (Fin.find? fun i => s.inSequence i && (s.dpb i).poc % s.maxPocLsb = poc).or
    (Fin.find? fun i => s.inSequence i &&
      ((s.dpb i).poc = poc || (s.dpb i).poc % s.maxPocLsb = poc))

/-- `mark_ref` -/
def markRef (f : HEVCFrame) (flag : FrameFlags) : HEVCFrame :=
  { f with flags := { f.flags with shortRef := flag.shortRef, longRef := flag.longRef } }

/-- `generate_missing_ref` -/
def generateMissingRef (poc : ℤ) : Option (Fin maxDpbSize × HEVCContext) :=
  (allocFrame s).map fun (i, s') =>
    (i, { s'.setFrame i { s'.dpb i with poc, sequence := s.seqDecode, flags := {} } with
      madeUp := s.madeUp ++ [s.slots] })

/-- The arguments of `add_candidate_ref`. -/
structure Candidate where
  list : RPSType
  poc : ℤ
  refFlag : FrameFlags
  curUsed : Bool
deriving DecidableEq

/-- The frame that `add_candidate_ref` takes: the one found, or else one made up. -/
def takeCandidate (poc : ℤ) : Option (Fin maxDpbSize × HEVCContext) :=
  match findRefIdx s poc with
  | some i => some (i, s)
  | none =>
    (generateMissingRef s poc).map fun (i, s) =>
      (i, s.setFrame i { s.dpb i with errorFlag := true })

/-- `add_candidate_ref` -/
@[irreducible] def addCandidateRef (c : Candidate) : Option HEVCContext :=
  (takeCandidate s c.poc).map fun (i, s) =>
    let entry : RefPic := { poc := (s.dpb i).poc, ref := i }
    let s := { s with rps := Function.update s.rps c.list (s.rps c.list ++ [entry]) }
    let s := s.setFrame i (markRef (s.dpb i) c.refFlag)
    { s with missRefFlag := s.missRefFlag || ((s.dpb i).errorFlag && c.curUsed) }

/-- The frame that `mpp_hevc_set_new_ref` takes, and what it is made. -/
theorem setNewRef_eq_some {s s' : HEVCContext} {poc : ℤ} (h : setNewRef s poc = some s') :
    ∃ i, s.firstFree = some i ∧ (∀ j, s.inSequence j → (s.dpb j).poc ≠ poc) ∧
      s' = { s.setFrame i { s.dpb i with
          poc
          sequence := s.seqDecode
          flags := { output := true, shortRef := true }
          slotIndex := some s.slots } with
        slots := s.slots + 1
        ref := some i
        pictures := s.pictures ++ [(s.slots, s.era)] } := by
  unfold setNewRef at h
  split_ifs at h with hdup
  rw [allocFrame, Option.map_map, Option.map_eq_some_iff] at h
  obtain ⟨i, hi, rfl⟩ := h
  refine ⟨i, hi, fun j hj hpoc => hdup ⟨j, hj, hpoc⟩, ?_⟩
  dsimp only [Function.comp_apply]
  unfold HEVCContext.setFrame
  dsimp only
  rw [Function.update_self, Function.update_idem]

/-! ### Releasing a frame -/

section UnrefFrame

variable {f : HEVCFrame} {clr : FrameFlags}

theorem unrefFrame_of_none (h : f.slotIndex = none) : unrefFrame f clr = f := if_pos h

/-- A frame without flags is released. -/
theorem unrefFrame_release (hs : f.slotIndex ≠ none) (h : f.flags.without clr = {}) :
    unrefFrame f clr = { sequence := f.sequence } := by
  unfold unrefFrame
  rw [if_neg hs]
  dsimp only
  rw [if_pos h, h]

theorem unrefFrame_keep (hs : f.slotIndex ≠ none) (h : f.flags.without clr ≠ {}) :
    unrefFrame f clr = { f with flags := f.flags.without clr } := by
  unfold unrefFrame
  rw [if_neg hs]
  dsimp only
  rw [if_neg h]

/-- A frame that is still in use lost flags only. -/
theorem unrefFrame_isSome (h : (unrefFrame f clr).slotIndex.isSome) :
    f.slotIndex.isSome ∧ unrefFrame f clr = { f with flags := f.flags.without clr } := by
  by_cases hs : f.slotIndex = none
  · rw [unrefFrame_of_none hs, hs] at h
    cases h
  · refine ⟨Option.isSome_iff_ne_none.2 hs, unrefFrame_keep hs fun hc => ?_⟩
    rw [unrefFrame_release hs hc] at h
    cases h

end UnrefFrame

end Libmpp.H265d
