import Libmpp.H265d.Output

/-!
# Deriving the reference picture set

`frameRps` is what the decoder does at the first slice of a picture: it takes the marks of
all frames, finds or makes up a frame for every entry of the coded set, marks it, and
releases what is left over. `decodeLtRps` reads the long-term entries of the slice header,
whose most significant bits are coded as differences.
-/

namespace Libmpp.H265d

/-- The short-term entries of the set, in the order in which they are added. -/
def shortCandidates (poc : ℤ) (rps : ShortTermRPS) : List Candidate :=
  rps.deltaPocs.zipIdx.map fun ((delta, used), i) =>
    let list : RPSType :=
      if !used then .stFoll else if i < rps.numNegativePics then .stCurrBef else .stCurrAft
    { list, poc := wrap32 (poc + delta), refFlag := { shortRef := true }, curUsed := list ≠ .stFoll }

/-- The long-term entries of the set. -/
def longCandidates (rps : LongTermRPS) : List Candidate :=
  rps.map fun (poc, used) =>
    let list : RPSType := if used then .ltCurr else .ltFoll
    { list, poc, refFlag := { longRef := true }, curUsed := list ≠ .ltFoll }

/-- `add_candidate_ref` for one entry after the other, until there is no frame for one. -/
def addCandidates : List Candidate → HEVCContext → HEVCContext × Bool
  | [], s => (s, true)
  | c :: cs, s =>
    match addCandidateRef s c with
    | some s => addCandidates cs s
    | none => (s, false)

/-- The context in which the entries are added: no frame is a reference, all lists are
    empty. -/
def unmarked (s : HEVCContext) : HEVCContext :=
  { s with dpb := fun i => markRef (s.dpb i) {}, rps := fun _ => [] }

/-- A CRA picture flushes the buffer when a frame comes after it in output order. -/
def flushForCra (cfg : MppDecBaseCfg) (s : HEVCContext) : HEVCContext :=
  if s.nalUnitType.isCra ∧ ∃ i, (s.dpb i).slotIndex.isSome ∧ s.poc < (s.dpb i).poc then
    h265dFlush cfg s
  else s

/-- `mpp_hevc_frame_rps` -/
def frameRps (cfg : MppDecBaseCfg) (s : HEVCContext) : HEVCContext × Bool :=
  match s.shortTermRps with
  | none =>
    ({ s with rps := Function.update (Function.update s.rps .stCurrBef []) .stCurrAft [] }, true)
  | some shortRps =>
    let (s, ok) := addCandidates
      (shortCandidates s.poc shortRps ++ longCandidates s.longTermRps) (unmarked s)
    if ok then (flushForCra cfg (unrefAll s {}), true) else (s, false)

/-- A long-term entry as it is coded: `poc_lsb_lt` and `used_by_curr_pic_lt_flag`, from the
    slice header or from the SPS, and `delta_poc_msb_cycle_lt`, when it is present. -/
structure CodedLongTerm where
  pocLsb : ℕ
  used : Bool
  deltaPocMsbCycle : Option ℕ
deriving DecidableEq

/-- The long-term part of a slice header: the entries taken from the SPS (`lt_idx_sps`)
    and those with bits of their own. -/
structure CodedLtRps where
  sps : List (ℕ × Option ℕ) := []
  slice : List CodedLongTerm := []
deriving DecidableEq

/-- The entry of the SPS at `lt_idx_sps`. -/
def spsLongTerm (sps : HEVCSPS) (ltIdxSps : ℕ) (deltaPocMsbCycle : Option ℕ) : CodedLongTerm :=
  let ref := (sps.longTermRefPics.getD []).getD ltIdxSps (0, false)
  { pocLsb := ref.1, used := ref.2, deltaPocMsbCycle }

/-- The long-term entries of a slice header, in their order. -/
def CodedLtRps.entries (c : CodedLtRps) (sps : HEVCSPS) : List CodedLongTerm :=
  c.sps.map (fun e => spsLongTerm sps e.1 e.2) ++ c.slice

/-- The loop of `decode_lt_rps`. `base` is `s->poc - s->sh.pic_order_cnt_lsb`. -/
def ltRpsLoop (base maxPocLsb : ℤ) (nbSps : ℕ) : ℕ → ℤ → List CodedLongTerm → LongTermRPS
  | _, _, [] => []
  | i, prevDeltaMsb, e :: es =>
    match e.deltaPocMsbCycle with
    | none => (wrap32 e.pocLsb, e.used) :: ltRpsLoop base maxPocLsb nbSps (i + 1) prevDeltaMsb es
    | some d =>
      let delta := wrap32 (if i ≠ 0 ∧ i ≠ nbSps then d + prevDeltaMsb else d)
      (wrap32 (e.pocLsb + (base - delta * maxPocLsb)), e.used) ::
        ltRpsLoop base maxPocLsb nbSps (i + 1) delta es

/-- `decode_lt_rps`. Too many entries are an error that the caller ignores. Sums that overflow
    are taken to wrap. -/
def decodeLtRps (sps : HEVCSPS) (poc picOrderCntLsb : ℤ) (c : CodedLtRps) : LongTermRPS :=
  if sps.longTermRefPics.isNone ∨ 32 < (c.entries sps).length then []
  else ltRpsLoop (poc - picOrderCntLsb) (2 ^ sps.log2MaxPocLsb) c.sps.length 0 0 (c.entries sps)

end Libmpp.H265d
