import Libmpp.H265d.Parser

/-!
# Parameter sets

The decoder keeps the parameter sets by their ids. A set that is accepted takes the place of
the one with its id; an SPS that differs from the one it replaces takes with it the PPSs that
refer to it, and raises `spsNeedUpdate`, whatever its id: the next slice header makes its own
SPS the active one again.

A NAL unit is given by what is read from it (`CodedNal`). What a PPS says depends on its SPS, and
what a slice header says on both its sets, so these are functions. A slice that has found its
sets is parsed as in `parserNalUnit`, so what the decoder gets to, `decoder` does
(`Decoder.run_reachable`).
-/

namespace Libmpp.H265d

/-- `MAX_SPS_COUNT` -/
abbrev maxSpsCount : ℕ := 16

/-- `MAX_PPS_COUNT` -/
abbrev maxPpsCount : ℕ := 64

/-- `HEVCPPS`: of its fields the ids, and all others as one value. -/
structure HEVCPPS where
  ppsId : ℕ
  spsId : ℕ
  others : List ℕ := []
deriving DecidableEq

/-- What comes of a parameter set: it is accepted, it is rejected with an error, or it is left
    out without one, as the late checks of the source do. -/
inductive Parsed (α : Type)
  | accepted (a : α)
  | error
  | leftOut
deriving DecidableEq

/-- The part of a slice header that is read with its parameter sets. -/
structure SliceBody where
  dependent : Bool := false
  picOrderCntLsb : ℕ := 0
  shortTermRps : ShortTermRPS := ⟨0, []⟩
  longTermRps : CodedLtRps := {}
  stop : HeaderStop := .accepted
  found : stop ≠ .parameterSets := by decide

/-- A slice: the start of its header, and the rest with the parameter sets it refers to. -/
structure CodedSlice where
  nalUnitType : NalUnitType
  temporalId : ℕ := 0
  firstSliceInPic : Bool := true
  ppsId : ℕ
  body : HEVCPPS → HEVCSPS → SliceBody

/-- A NAL unit as it is read. One of another layer, or of a sub-layer that is not decoded, is
    ignored. An SEI message may set `deny_flag`. -/
inductive CodedNal
  | ignored (t : NalUnitType)
  | vps (accepted : Bool)
  | sps (set : Parsed HEVCSPS)
  | pps (ppsId spsId : ℕ) (set : HEVCSPS → Parsed (List ℕ))
  | slice (n : CodedSlice)
  | sei (t : NalUnitType) (recoveryPoints : List (Option ℤ)) (deny : Option Bool)
  | endOfSeq (t : NalUnitType)
  | other (t : NalUnitType)

/-- The type of a NAL unit. -/
def CodedNal.type : CodedNal → NalUnitType
  | .ignored t => t
  | .vps _ => .vps
  | .sps _ => .sps
  | .pps _ _ _ => .pps
  | .slice n => n.nalUnitType
  | .sei t _ _ => t
  | .endOfSeq t => t
  | .other t => t

/-- The decoder with its parameter sets. The memory of a PPS is named by its id and by how
    often that of the id was freed (`ppsFreed`); `pps` is the one of the last slice. -/
structure Decoder where
  ctx : HEVCContext := {}
  spsList : ℕ → Option HEVCSPS := fun _ => none
  ppsList : ℕ → Option HEVCPPS := fun _ => none
  ppsFreed : ℕ → ℕ := fun _ => 0
  pps : Option (ℕ × ℕ) := none
  spsNeedUpdate : Bool := false
  denyFlag : Bool := false

namespace Decoder

/-- The type of the NAL unit is noted. -/
def enter (d : Decoder) (t : NalUnitType) : Decoder :=
  { d with ctx := { d.ctx with nalUnitType := t } }

/-- The sets after an SPS that differs from the one with its id. -/
def replaceSps (d : Decoder) (sps : HEVCSPS) : Decoder :=
  { d with
    ppsList := fun i => if (d.ppsList i).any (·.spsId = sps.spsId) then none else d.ppsList i
    ppsFreed := fun i =>
      if (d.ppsList i).any (·.spsId = sps.spsId) then d.ppsFreed i + 1 else d.ppsFreed i
    spsList := Function.update d.spsList sps.spsId (some sps)
    spsNeedUpdate := true }

/-- The end of `mpp_hevc_decode_nal_sps`: a repeat of the stored SPS changes nothing. -/
def storeSps (d : Decoder) (sps : HEVCSPS) : Decoder :=
  if d.spsList sps.spsId = some sps then d else d.replaceSps sps

/-- What is parsed of a PPS: it needs its SPS. -/
def parsedPps (d : Decoder) (ppsId spsId : ℕ) (set : HEVCSPS → Parsed (List ℕ)) :
    Parsed (List ℕ) :=
  if maxPpsCount ≤ ppsId ∨ maxSpsCount ≤ spsId then .error
  else
    match d.spsList spsId with
    | some sps => set sps
    | none => .error

/-- The PPS of a slice. It may not change within a picture. -/
def slicePps (d : Decoder) (n : CodedSlice) : Option HEVCPPS :=
  if n.firstSliceInPic ∨ d.pps = some (n.ppsId, d.ppsFreed n.ppsId) then d.ppsList n.ppsId
  else none

/-- The parameter sets of a slice, with what `hls_slice_header` notes about them, and the slice
    with the SPS when that becomes the active one. -/
def resolve (d : Decoder) (n : CodedSlice) : Decoder × SliceNal :=
  let failed : SliceNal := {
    nalUnitType := n.nalUnitType, temporalId := n.temporalId, firstSliceInPic := n.firstSliceInPic,
    stop := .parameterSets }
  match d.slicePps n with
  | none => (d, failed)
  | some pps =>
    let d := { d with pps := some (n.ppsId, d.ppsFreed n.ppsId) }
    match d.spsList pps.spsId with
    | none => (d, failed)
    | some sps =>
      let body := n.body pps sps
      ({ d with spsNeedUpdate := false }, {
        nalUnitType := n.nalUnitType
        temporalId := n.temporalId
        firstSliceInPic := n.firstSliceInPic
        newSps := if d.spsNeedUpdate ∨ d.ctx.sps ≠ some sps then some sps else none
        dependent := body.dependent
        picOrderCntLsb := body.picOrderCntLsb
        shortTermRps := body.shortTermRps
        longTermRps := body.longTermRps
        stop := body.stop })

/-- A NAL unit without parameter sets. -/
def parsePlain (cfg : MppDecBaseCfg) (task : Bool) (d : Decoder) (n : Nal) : Decoder × Bool :=
  let r := parserNalUnit cfg task d.ctx n
  ({ d with ctx := r.1 }, r.2)

/-- The cases of `parser_nal_unit`, and whether the packet is parsed on. A set that is rejected
    after a slice of the picture was decoded is no error. -/
def handle (cfg : MppDecBaseCfg) (task : Bool) (d : Decoder) : CodedNal → Decoder × Bool
  | .ignored _ => (d, true)
  | .vps accepted => (d, accepted || d.ctx.isDecoded)
  | .sps (.accepted sps) => ({ d.storeSps sps with denyFlag := false }, true)
  | .sps .leftOut => ({ d with denyFlag := false }, true)
  | .sps .error => if d.ctx.isDecoded then ({ d with denyFlag := false }, true) else (d, false)
  | .pps ppsId spsId set =>
    if d.denyFlag then (d, false)
    else
      match d.parsedPps ppsId spsId set with
      | .accepted others =>
        ({ d with ppsList := Function.update d.ppsList ppsId (some ⟨ppsId, spsId, others⟩) }, true)
      | .leftOut => (d, true)
      | .error => (d, d.ctx.isDecoded)
  | .slice n =>
    if d.denyFlag then (d, false)
    else if task then
      let r := d.resolve n
      parsePlain cfg true r.1 (.slice r.2)
    else (d, true)
  | .sei t points deny =>
    if d.denyFlag then (d, false)
    else parsePlain cfg task { d with denyFlag := deny.getD d.denyFlag } (.sei t points)
  | .endOfSeq t => if d.denyFlag then (d, false) else parsePlain cfg task d (.endOfSeq t)
  | .other _ => if d.denyFlag then (d, false) else (d, true)

/-- `parser_nal_unit` -/
def parserNal (cfg : MppDecBaseCfg) (task : Bool) (d : Decoder) (n : CodedNal) : Decoder × Bool :=
  (d.enter n.type).handle cfg task n

/-- `parser_nal_units`, up to the first NAL unit that fails. -/
def parserNals (cfg : MppDecBaseCfg) (task : Bool) : List CodedNal → Decoder → Decoder × Bool
  | [], d => (d, true)
  | n :: ns, d =>
    let r := d.parserNal cfg task n
    if r.2 then parserNals cfg task ns r.1 else r

end Decoder

/-- What the decoder is asked to do. -/
inductive CodedOp
  | parse (nals : List CodedNal) (eos : Bool)
  | extraData (nals : List CodedNal)
  | flush
  | reset
  | callback (slot : ℕ)

namespace Decoder

/-- An operation that leaves the parameter sets alone. -/
def applyOp (cfg : MppDecBaseCfg) (d : Decoder) (o : Op) : Decoder :=
  { d with ctx := o.apply cfg d.ctx }

/-- The current frame of the last packet is forgotten. -/
def start (d : Decoder) : Decoder := { d with ctx := { d.ctx with ref := none } }

/-- What `h265d_parse` does when the packet is parsed. -/
def finish (cfg : MppDecBaseCfg) (eos : Bool) (d : Decoder) : Decoder :=
  { d with ctx := finishPacket cfg eos d.ctx }

/-- An operation on the decoder. -/
def apply (cfg : MppDecBaseCfg) (d : Decoder) : CodedOp → Decoder
  | .parse nals eos => (parserNals cfg true nals d.start).1.finish cfg eos
  | .extraData nals => (parserNals cfg false nals d).1
  | .flush => d.applyOp cfg .flush
  | .reset => d.applyOp cfg .reset
  | .callback slot => d.applyOp cfg (.callback slot)

/-- A run of operations. -/
def run (cfg : MppDecBaseCfg) (ops : List CodedOp) (d : Decoder) : Decoder :=
  ops.foldl (apply cfg) d

variable {cfg : MppDecBaseCfg} {task : Bool}

/-- With its parameter sets looked up, a NAL unit is one of `parserNalUnit`. -/
theorem parserNal_refines (d : Decoder) (n : CodedNal) :
    ∃ m, (d.parserNal cfg task n).1.ctx = (parserNalUnit cfg task d.ctx m).1 ∧
      (d.parserNal cfg task n).2 = (parserNalUnit cfg task d.ctx m).2 := by
  unfold parserNal
  cases n with
  | ignored t => exact ⟨.passive t true, rfl, rfl⟩
  | vps accepted => exact ⟨.passive .vps (accepted || d.ctx.isDecoded), rfl, rfl⟩
  | sps set =>
    cases set with
    | accepted sps =>
      refine ⟨.passive .sps true, ?_, rfl⟩
      show ((d.enter .sps).storeSps sps).ctx = _
      unfold storeSps
      split_ifs <;> rfl
    | leftOut => exact ⟨.passive .sps true, rfl, rfl⟩
    | error =>
      refine ⟨.passive .sps d.ctx.isDecoded, ?_⟩
      unfold handle
      dsimp only
      split_ifs with hd
      · exact ⟨rfl, hd.symm⟩
      · exact ⟨rfl, (Bool.eq_false_iff.2 hd).symm⟩
  | pps ppsId spsId set =>
    unfold handle
    dsimp only
    split_ifs
    · exact ⟨.passive .pps false, rfl, rfl⟩
    · cases (d.enter (CodedNal.pps ppsId spsId set).type).parsedPps ppsId spsId set with
      | accepted others => exact ⟨.passive .pps true, rfl, rfl⟩
      | leftOut => exact ⟨.passive .pps true, rfl, rfl⟩
      | error => exact ⟨.passive .pps d.ctx.isDecoded, rfl, rfl⟩
  | slice n =>
    unfold handle
    dsimp only
    split_ifs with hdeny htask
    · exact ⟨.passive n.nalUnitType false, rfl, rfl⟩
    · subst htask
      have htype : ((d.enter n.nalUnitType).resolve n).2.nalUnitType = n.nalUnitType := by
        unfold resolve
        split
        · rfl
        · dsimp only
          split <;> rfl
      have hctx : ((d.enter n.nalUnitType).resolve n).1.ctx = (d.enter n.nalUnitType).ctx := by
        unfold resolve
        split
        · rfl
        · dsimp only
          split <;> rfl
      refine ⟨.slice ((d.enter n.nalUnitType).resolve n).2, ?_⟩
      unfold parsePlain CodedNal.type parserNalUnit
      dsimp only
      rw [hctx, htype]
      exact ⟨rfl, rfl⟩
    · exact ⟨.passive n.nalUnitType true, rfl, rfl⟩
  | sei t points deny =>
    unfold handle
    dsimp only
    split_ifs
    · exact ⟨.passive t false, rfl, rfl⟩
    · exact ⟨.sei t points, rfl, rfl⟩
  | endOfSeq t =>
    unfold handle
    dsimp only
    split_ifs
    · exact ⟨.passive t false, rfl, rfl⟩
    · exact ⟨.endOfSeq t, rfl, rfl⟩
  | other t =>
    unfold handle
    dsimp only
    split_ifs
    · exact ⟨.passive t false, rfl, rfl⟩
    · exact ⟨.passive t true, rfl, rfl⟩

theorem parserNals_refines (ns : List CodedNal) (d : Decoder) :
    ∃ ms, (parserNals cfg task ns d).1.ctx = parserNalUnits cfg task ms d.ctx := by
  induction ns generalizing d with
  | nil => exact ⟨[], rfl⟩
  | cons n ns ih =>
    obtain ⟨m, hctx, hok⟩ := parserNal_refines d n
    obtain ⟨ms, hms⟩ := ih (d.parserNal cfg task n).1
    rw [parserNals]
    split_ifs with hr
    · refine ⟨m :: ms, ?_⟩
      rw [hms, parserNalUnits, hctx]
      rw [hok] at hr
      generalize parserNalUnit cfg task d.ctx m = r at hr ⊢
      obtain ⟨s, ok⟩ := r
      obtain rfl : ok = true := hr
      rfl
    · refine ⟨[m], ?_⟩
      rw [parserNalUnits, hctx]
      generalize parserNalUnit cfg task d.ctx m = r
      obtain ⟨s, ok⟩ := r
      cases ok <;> rfl

/-- What the decoder with its parameter sets gets to, the decoder of resolved slices does. -/
theorem run_reachable (cfg : MppDecBaseCfg) (ops : List CodedOp) :
    (decoder cfg).Reachable (run cfg ops {}).ctx := by
  induction ops using List.reverseRecOn with
  | nil => exact .init rfl
  | append_singleton ops o ih =>
    rw [run, List.foldl_append]
    change (decoder cfg).Reachable ((run cfg ops {}).apply cfg o).ctx
    generalize run cfg ops {} = d at ih ⊢
    have hop : ∃ p : Op, (d.apply cfg o).ctx = p.apply cfg d.ctx := by
      cases o with
      | parse nals eos =>
        obtain ⟨ms, hms⟩ := parserNals_refines nals d.start
        exact ⟨.parse ms eos, congrArg (finishPacket cfg eos) hms⟩
      | extraData nals =>
        obtain ⟨ms, hms⟩ := parserNals_refines nals d
        exact ⟨.extraData ms, hms⟩
      | flush => exact ⟨.flush, rfl⟩
      | reset => exact ⟨.reset, rfl⟩
      | callback slot => exact ⟨.callback slot, rfl⟩
    obtain ⟨p, hp⟩ := hop
    exact .step (a := .op p) ih hp

end Decoder

end Libmpp.H265d
