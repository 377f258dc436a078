import Libmpp.H265d.ParamSets

/-!
# Parameter sets that no slice uses

A stream with a parameter set put in is decoded like the stream without it
(`unused_undisturbed`) when the set is a PPS that no later slice uses, or repeats an SPS that is
stored, and comes in the packet of an access unit, or in one of its own when nothing is to be
output then (`Insertion.Harmless`). The two runs are followed side by side: they have the same
context, and the same parameter sets but for the one PPS (`SameBut`).
-/

namespace Libmpp.H265d

open Function

namespace Decoder

/-- The decoders are the same but for the PPSs with the ids in `K`. -/
def SameBut (K : Set ℕ) (d e : Decoder) : Prop :=
  ∃ ppsList ppsFreed, (∀ i, i ∉ K → ppsList i = d.ppsList i) ∧
    (∀ i, i ∉ K → ppsFreed i = d.ppsFreed i) ∧ e = { d with ppsList, ppsFreed }

end Decoder

/-- The NAL unit is a slice that refers to one of the PPSs. -/
def CodedNal.UsesPps (K : Set ℕ) : CodedNal → Prop
  | .slice n => n.ppsId ∈ K
  | _ => False

/-- The ids of the PPSs that the NAL unit sets. -/
def CodedNal.ppsIds : CodedNal → Set ℕ
  | .pps ppsId _ _ => {ppsId}
  | _ => ∅

/-- The NAL units of an operation. -/
def CodedOp.nals : CodedOp → List CodedNal
  | .parse nals _ => nals
  | .extraData nals => nals
  | _ => []

namespace Decoder

variable {cfg : MppDecBaseCfg} {task : Bool} {K : Set ℕ} {d e : Decoder}

theorem SameBut.refl (K : Set ℕ) (d : Decoder) : SameBut K d d :=
  ⟨_, _, fun _ _ => rfl, fun _ _ => rfl, rfl⟩

theorem SameBut.ctx (h : SameBut K d e) : e.ctx = d.ctx := by
  obtain ⟨l, f, -, -, rfl⟩ := h
  rfl

theorem SameBut.enter (h : SameBut K d e) (t : NalUnitType) :
    SameBut K (d.enter t) (e.enter t) := by
  obtain ⟨l, f, hl, hf, rfl⟩ := h
  exact ⟨l, f, hl, hf, rfl⟩

theorem SameBut.withDeny (h : SameBut K d e) (deny : Bool) :
    SameBut K { d with denyFlag := deny } { e with denyFlag := deny } := by
  obtain ⟨l, f, hl, hf, rfl⟩ := h
  exact ⟨l, f, hl, hf, rfl⟩

theorem SameBut.storeSps (h : SameBut K d e) (sps : HEVCSPS) :
    SameBut K (d.storeSps sps) (e.storeSps sps) := by
  obtain ⟨l, f, hl, hf, rfl⟩ := h
  unfold Decoder.storeSps
  dsimp only
  split_ifs
  · exact ⟨l, f, hl, hf, rfl⟩
  · refine ⟨_, _, fun i hi => ?_, fun i hi => ?_, rfl⟩
    · simp only [replaceSps, hl i hi]
    · simp only [replaceSps, hl i hi, hf i hi]

theorem SameBut.parsePlain (h : SameBut K d e) (n : Nal) :
    SameBut K (d.parsePlain cfg task n).1 (e.parsePlain cfg task n).1 ∧
      (e.parsePlain cfg task n).2 = (d.parsePlain cfg task n).2 := by
  obtain ⟨l, f, hl, hf, rfl⟩ := h
  exact ⟨⟨l, f, hl, hf, rfl⟩, rfl⟩

/-- A slice that refers to another PPS finds the same parameter sets. -/
theorem SameBut.resolve (h : SameBut K d e) {n : CodedSlice} (hn : n.ppsId ∉ K) :
    SameBut K (d.resolve n).1 (e.resolve n).1 ∧ (e.resolve n).2 = (d.resolve n).2 := by
  obtain ⟨l, f, hl, hf, rfl⟩ := h
  have hslice : slicePps { d with ppsList := l, ppsFreed := f } n = d.slicePps n := by
    simp only [slicePps, hf _ hn, hl _ hn]
  unfold Decoder.resolve
  dsimp only
  rw [hslice, hf _ hn]
  cases d.slicePps n with
  | none => exact ⟨⟨l, f, hl, hf, rfl⟩, rfl⟩
  | some pps =>
    dsimp only
    cases d.spsList pps.spsId with
    | none => exact ⟨⟨l, f, hl, hf, rfl⟩, rfl⟩
    | some sps => exact ⟨⟨l, f, hl, hf, rfl⟩, rfl⟩

/-- A PPS that is parsed to the same end. -/
theorem SameBut.storePps (h : SameBut K d e) (ppsId : ℕ) (pps : HEVCPPS) :
    SameBut K { d with ppsList := update d.ppsList ppsId (some pps) }
      { e with ppsList := update e.ppsList ppsId (some pps) } := by
  obtain ⟨l, f, hl, hf, rfl⟩ := h
  refine ⟨_, f, fun i hi => ?_, hf, rfl⟩
  by_cases hid : i = ppsId
  · subst hid
    dsimp only
    rw [update_self, update_self]
  · dsimp only
    rw [update_of_ne hid, update_of_ne hid, hl i hi]

/-- A NAL unit that does not use the PPS. -/
theorem SameBut.handle (cfg : MppDecBaseCfg) (task : Bool) (h : SameBut K d e) {n : CodedNal} (hn : ¬ n.UsesPps K) :
    SameBut K (d.handle cfg task n).1 (e.handle cfg task n).1 ∧
      (e.handle cfg task n).2 = (d.handle cfg task n).2 := by
  obtain ⟨l, f, -, -, rfl⟩ := id h
  cases n with
  | ignored t => exact ⟨h, rfl⟩
  | vps accepted => exact ⟨h, rfl⟩
  | sps set =>
    cases set with
    | accepted sps => exact ⟨(h.storeSps sps).withDeny false, rfl⟩
    | leftOut => exact ⟨h.withDeny false, rfl⟩
    | error =>
      unfold Decoder.handle
      dsimp only
      split_ifs
      · exact ⟨h.withDeny false, rfl⟩
      · exact ⟨h, rfl⟩
  | pps ppsId spsId set =>
    have hparsed : parsedPps { d with ppsList := l, ppsFreed := f } ppsId spsId set =
        d.parsedPps ppsId spsId set := rfl
    unfold Decoder.handle
    dsimp only
    rw [hparsed]
    split_ifs
    · exact ⟨h, rfl⟩
    · cases d.parsedPps ppsId spsId set with
      | accepted others => exact ⟨h.storePps ppsId _, rfl⟩
      | leftOut => exact ⟨h, rfl⟩
      | error => exact ⟨h, rfl⟩
  | slice n =>
    obtain ⟨hres, hslice⟩ := h.resolve (n := n) hn
    unfold Decoder.handle
    dsimp only
    split_ifs
    · exact ⟨h, rfl⟩
    · rw [hslice]
      exact hres.parsePlain _
    · exact ⟨h, rfl⟩
  | sei t points deny =>
    unfold Decoder.handle
    dsimp only
    split_ifs
    · exact ⟨h, rfl⟩
    · exact (h.withDeny _).parsePlain _
  | endOfSeq t =>
    unfold Decoder.handle
    dsimp only
    split_ifs
    · exact ⟨h, rfl⟩
    · exact h.parsePlain _
  | other t =>
    unfold Decoder.handle
    dsimp only
    split_ifs <;> exact ⟨h, rfl⟩

theorem SameBut.parserNals (cfg : MppDecBaseCfg) (task : Bool) (h : SameBut K d e) {ns : List CodedNal}
    (hns : ∀ n ∈ ns, ¬ n.UsesPps K) :
    SameBut K (parserNals cfg task ns d).1 (parserNals cfg task ns e).1 := by
  induction ns generalizing d e with
  | nil => exact h
  | cons n ns ih =>
    obtain ⟨hn, hr⟩ := (h.enter n.type).handle cfg task
      (hns n (List.mem_cons_self))
    unfold Decoder.parserNals parserNal
    dsimp only
    rw [hr]
    split_ifs
    · exact ih hn fun m hm => hns m (List.mem_cons_of_mem _ hm)
    · exact hn

/-- An operation that does not use the PPS. -/
theorem SameBut.apply (cfg : MppDecBaseCfg) (h : SameBut K d e) {o : CodedOp} (ho : ∀ n ∈ o.nals, ¬ n.UsesPps K) :
    SameBut K (d.apply cfg o) (e.apply cfg o) := by
  cases o with
  | parse nals eos =>
    have hstart : SameBut K d.start e.start := by
      obtain ⟨l, f, hl, hf, rfl⟩ := h
      exact ⟨l, f, hl, hf, rfl⟩
    have hnals := hstart.parserNals cfg true ho
    show SameBut K ((Decoder.parserNals cfg true nals d.start).1.finish cfg eos)
      ((Decoder.parserNals cfg true nals e.start).1.finish cfg eos)
    obtain ⟨l, f, hl, hf, heq⟩ := hnals
    rw [show (Decoder.parserNals cfg true nals e.start).1 = _ from heq]
    exact ⟨l, f, hl, hf, rfl⟩
  | extraData nals => exact h.parserNals cfg false ho
  | flush =>
    obtain ⟨l, f, hl, hf, rfl⟩ := h
    exact ⟨l, f, hl, hf, rfl⟩
  | reset =>
    obtain ⟨l, f, hl, hf, rfl⟩ := h
    exact ⟨l, f, hl, hf, rfl⟩
  | callback slot =>
    obtain ⟨l, f, hl, hf, rfl⟩ := h
    exact ⟨l, f, hl, hf, rfl⟩

theorem SameBut.run (h : SameBut K d e) {ops : List CodedOp}
    (hops : ∀ n ∈ ops.flatMap CodedOp.nals, ¬ n.UsesPps K) :
    SameBut K (run cfg ops d) (run cfg ops e) := by
  induction ops generalizing d e with
  | nil => exact h
  | cons o ops ih =>
    rw [List.flatMap_cons] at hops
    exact ih (h.apply cfg fun n hn => hops n (List.mem_append_left _ hn))
      fun n hn => hops n (List.mem_append_right _ hn)

/-- The decoders are the same but for PPSs, once the type of the next NAL unit is noted. -/
def SameNext (K : Set ℕ) (d e : Decoder) : Prop := ∀ t, SameBut K (d.enter t) (e.enter t)

/-- There is a next NAL unit. -/
theorem SameNext.parserNals (cfg : MppDecBaseCfg) (task : Bool) (h : SameNext K d e) {ns : List CodedNal} (hne : ns ≠ [])
    (hns : ∀ n ∈ ns, ¬ n.UsesPps K) :
    SameBut K (parserNals cfg task ns d).1 (parserNals cfg task ns e).1 := by
  cases ns with
  | nil => exact absurd rfl hne
  | cons n ns =>
    obtain ⟨hn, hr⟩ := (h n.type).handle cfg task
      (hns n (List.mem_cons_self))
    unfold Decoder.parserNals parserNal
    dsimp only
    rw [hr]
    split_ifs
    · exact hn.parserNals cfg task fun m hm => hns m (List.mem_cons_of_mem _ hm)
    · exact hn

theorem parserNals_append (pre post : List CodedNal) (d : Decoder) :
    parserNals cfg task (pre ++ post) d =
      if (parserNals cfg task pre d).2 then parserNals cfg task post (parserNals cfg task pre d).1
      else parserNals cfg task pre d := by
  induction pre generalizing d with
  | nil => rfl
  | cons n pre ih =>
    rw [List.cons_append, parserNals, parserNals]
    split_ifs with hn hpre
    · rw [ih, if_pos hpre]
    · rw [ih, if_neg hpre]
    · rfl

end Decoder

/-- A parameter set that is accepted, and is a PPS or a repeat of the SPS that is stored. -/
def CodedNal.Harmless (d : Decoder) : CodedNal → Prop
  | .pps ppsId spsId set => d.denyFlag = false ∧
    ∃ others, d.parsedPps ppsId spsId set = .accepted others
  | .sps (.accepted set) => d.denyFlag = false ∧ d.spsList set.spsId = some set
  | _ => False

/-- Where a NAL unit is put in: in the packet of an access unit, or as a packet of its own. -/
inductive Insertion
  | inPacket (pre post : List CodedNal) (eos : Bool)
  | ownPacket

namespace Insertion

/-- The operations without the NAL unit. -/
def without : Insertion → List CodedOp
  | .inPacket pre post eos => [.parse (pre ++ post) eos]
  | .ownPacket => []

/-- The operations with the NAL unit. -/
def put (ins : CodedNal) : Insertion → List CodedOp
  | .inPacket pre post eos => [.parse (pre ++ ins :: post) eos]
  | .ownPacket => [.parse [ins] false]

/-- The NAL units of the packet that come after it. -/
def post : Insertion → List CodedNal
  | .inPacket _ post _ => post
  | .ownPacket => []

end Insertion

/-- No frame is to be output. -/
def HEVCContext.NothingDue (cfg : MppDecBaseCfg) (s : HEVCContext) : Prop :=
  cfg.fastOut ∨ s.seqOutput = s.seqDecode ∧
    (s.nbOutput = 0 ∨ s.sps.any fun sps => s.nbOutput ≤ sps.numReorderPics)

/-- A parameter set that is put in without harm: another NAL unit follows, in the same packet, or
    in the next one when no frame is to be output. -/
def Insertion.Harmless (cfg : MppDecBaseCfg) (d : Decoder) (ins : CodedNal) (after : List CodedOp) :
    Insertion → Prop
  | .inPacket pre post _ => post ≠ [] ∧
    ((Decoder.parserNals cfg true pre d.start).2 →
      ins.Harmless (Decoder.parserNals cfg true pre d.start).1)
  | .ownPacket => ins.Harmless d ∧ d.ctx.NothingDue cfg ∧
    ∃ nals eos rest, after = .parse nals eos :: rest ∧ nals ≠ []

namespace Decoder

variable {cfg : MppDecBaseCfg} {d : Decoder} {ins : CodedNal}

/-- A harmless set changes the PPSs with its id, and the type of the last NAL unit. -/
theorem parserNal_harmless (cfg : MppDecBaseCfg) (task : Bool) (h : ins.Harmless d) :
    (d.parserNal cfg task ins).2 ∧ SameBut ins.ppsIds (d.enter ins.type) (d.parserNal cfg task ins).1 ∧
      (ins.type = .sps ∨ ins.type = .pps) := by
  cases ins with
  | pps ppsId spsId set =>
    obtain ⟨hdeny, others, hparsed⟩ := h
    have hparsed : (d.enter .pps).parsedPps ppsId spsId set = .accepted others := hparsed
    have hdeny : ¬ (d.enter .pps).denyFlag := Bool.eq_false_iff.1 hdeny
    unfold parserNal handle CodedNal.type
    dsimp only
    rw [if_neg hdeny, hparsed]
    refine ⟨rfl, ⟨_, d.ppsFreed, fun i hi => ?_, fun _ _ => rfl, rfl⟩, .inr rfl⟩
    exact update_of_ne hi _ _
  | sps set =>
    cases set with
    | accepted sps =>
      obtain ⟨hdeny, hstored⟩ := h
      have hstored : (d.enter .sps).storeSps sps = d.enter .sps := if_pos hstored
      unfold parserNal handle CodedNal.type
      dsimp only
      rw [hstored]
      refine ⟨rfl, ⟨d.ppsList, d.ppsFreed, fun _ _ => rfl, fun _ _ => rfl, ?_⟩, .inl rfl⟩
      unfold Decoder.enter
      rw [hdeny]
    | error => exact False.elim h
    | leftOut => exact False.elim h
  | ignored t => exact False.elim h
  | vps accepted => exact False.elim h
  | slice n => exact False.elim h
  | sei t points deny => exact False.elim h
  | endOfSeq t => exact False.elim h
  | other t => exact False.elim h

/-- In the packet of an access unit. -/
theorem parserNals_harmless {task : Bool} {pre post : List CodedNal} (hpost : post ≠ [])
    (h : (parserNals cfg task pre d).2 → ins.Harmless (parserNals cfg task pre d).1)
    (hunused : ∀ n ∈ post, ¬ n.UsesPps ins.ppsIds) :
    SameBut ins.ppsIds (parserNals cfg task (pre ++ post) d).1
      (parserNals cfg task (pre ++ ins :: post) d).1 := by
  rw [parserNals_append, parserNals_append]
  split_ifs with hpre
  · obtain ⟨hok, hsame, -⟩ := parserNal_harmless cfg task (h hpre)
    have hnext : SameNext ins.ppsIds (parserNals cfg task pre d).1
        ((parserNals cfg task pre d).1.parserNal cfg task ins).1 := fun t => hsame.enter t
    rw [parserNals, if_pos hok]
    exact hnext.parserNals cfg task hpost hunused
  · exact .refl _ _

/-- No frame is output when none is to be and fast play has nothing to do. -/
theorem outputFrame_nothingDue {s : HEVCContext} (hdue : s.NothingDue cfg) (href : s.ref = none)
    (hslow : s.playsFast cfg = false) : outputFrame cfg false s = (s, false) := by
  unfold outputFrame
  split_ifs with hfast
  · unfold outDecOrder
    rw [href]
  · rcases hdue with hc | ⟨hseq, hdue⟩
    · exact absurd hc hfast
    · show outputLoop cfg false (255 + 1) s = _
      rw [outputLoop]
      by_cases hwait : s.waitsForMore false
      · rw [if_pos ⟨hwait, Bool.eq_false_iff.1 hslow⟩]
      · have hnb : ¬ s.nbOutput ≠ 0 := fun hne => by
          rcases hdue with h0 | hsome
          · exact hne h0
          · refine hwait ?_
            unfold HEVCContext.waitsForMore
            rw [Bool.not_false, Bool.true_and, Bool.and_eq_true, decide_eq_true_eq]
            exact ⟨hseq, hsome⟩
        rw [if_neg fun hc => hwait hc.1, if_neg hwait]
        dsimp only
        rw [if_neg hnb, if_neg (not_not.2 hseq)]

/-- A packet with a harmless set alone. -/
theorem finishPacket_nothingDue {s : HEVCContext} (hdue : s.NothingDue cfg) (href : s.ref = none)
    (htype : s.nalUnitType = .sps ∨ s.nalUnitType = .pps) :
    finishPacket cfg false s = { s with isDecoded := false } := by
  have hslow : HEVCContext.playsFast { s with isDecoded := false } cfg = false := by
    unfold HEVCContext.playsFast
    rcases htype with h | h <;> simp [h, NalUnitType.isIdr, NalUnitType.isBla]
  exact congrArg Prod.fst
    (outputFrame_nothingDue (s := { s with isDecoded := false }) hdue href hslow)

/-- A harmless set in a packet of its own changes the last type, and forgets the last frame. -/
theorem apply_harmless (h : ins.Harmless d) (hdue : d.ctx.NothingDue cfg)
    (hdecoded : d.ctx.isDecoded = false) :
    SameNext ins.ppsIds d.start (d.apply cfg (.parse [ins] false)).start := by
  have hstart : ins.Harmless d.start := by
    unfold CodedNal.Harmless at h ⊢
    exact h
  obtain ⟨hok, hsame, htype⟩ := parserNal_harmless cfg true hstart
  have happly : d.apply cfg (.parse [ins] false) =
      (d.start.parserNal cfg true ins).1.finish cfg false := by
    show (parserNals cfg true [ins] d.start).1.finish cfg false = _
    rw [parserNals, if_pos hok]
    rfl
  obtain ⟨l, f, hl, hf, heq⟩ := hsame
  have hctx : finishPacket cfg false (d.start.enter ins.type).ctx =
      { (d.start.enter ins.type).ctx with isDecoded := false } :=
    finishPacket_nothingDue hdue rfl htype
  intro t
  refine ⟨l, f, hl, hf, ?_⟩
  rw [happly, heq]
  unfold Decoder.finish
  dsimp only
  rw [hctx]
  unfold Decoder.start Decoder.enter
  dsimp only
  rw [hdecoded]

/-! ### Between packets no slice is pending -/

theorem outputRel_isDecoded : OutputRel fun s t => t.isDecoded = s.isDecoded :=
  ⟨fun _ => rfl, fun h₁ h₂ => h₂.trans h₁, fun _ _ => rfl, fun _ => rfl, fun _ _ => rfl, fun _ => rfl⟩

theorem finishPacket_isDecoded (cfg : MppDecBaseCfg) (eos : Bool) (s : HEVCContext) :
    (finishPacket cfg eos s).isDecoded = false :=
  outputRel_isDecoded.outputFrame cfg false _

/-- Without a task, no slice is decoded. -/
theorem handle_isDecoded (n : CodedNal) :
    (d.handle cfg false n).1.ctx.isDecoded = d.ctx.isDecoded := by
  have hplain : ∀ (e : Decoder) (m : Nal), (∀ n, m ≠ .slice n) →
      (e.parsePlain cfg false m).1.ctx.isDecoded = e.ctx.isDecoded := by
    intro e m hm
    cases m with
    | slice n => exact absurd rfl (hm n)
    | endOfSeq t => rfl
    | passive t accepted => rfl
    | sei t points =>
      show (seiRecovery { e.ctx with nalUnitType := t } points).isDecoded = _
      have hsei : ∀ (l : List (Option ℤ)) (s : HEVCContext),
          (seiRecovery s l).isDecoded = s.isDecoded := by
        intro l
        induction l with
        | nil => exact fun _ => rfl
        | cons p l ih =>
          intro s
          refine (ih _).trans ?_
          cases p <;> rfl
      exact hsei points _
  cases n with
  | ignored t => rfl
  | vps accepted => rfl
  | sps set =>
    cases set with
    | accepted sps =>
      show (d.storeSps sps).ctx.isDecoded = _
      unfold storeSps
      split_ifs <;> rfl
    | leftOut => rfl
    | error =>
      unfold handle
      dsimp only
      split_ifs <;> rfl
  | pps ppsId spsId set =>
    unfold handle
    dsimp only
    split_ifs
    · rfl
    · cases d.parsedPps ppsId spsId set <;> rfl
  | slice n =>
    unfold handle
    dsimp only
    rw [if_neg Bool.false_ne_true]
    split_ifs <;> rfl
  | sei t points deny =>
    unfold handle
    dsimp only
    split_ifs
    · rfl
    · exact hplain _ _ fun _ => by simp
  | endOfSeq t =>
    unfold handle
    dsimp only
    split_ifs <;> rfl
  | other t =>
    unfold handle
    dsimp only
    split_ifs <;> rfl

theorem parserNals_isDecoded (ns : List CodedNal) (d : Decoder) :
    (parserNals cfg false ns d).1.ctx.isDecoded = d.ctx.isDecoded := by
  induction ns generalizing d with
  | nil => rfl
  | cons n ns ih =>
    have hn : (d.parserNal cfg false n).1.ctx.isDecoded = d.ctx.isDecoded := handle_isDecoded n
    rw [parserNals]
    split_ifs
    · exact (ih _).trans hn
    · exact hn

theorem run_isDecoded (cfg : MppDecBaseCfg) (ops : List CodedOp) :
    (run cfg ops {}).ctx.isDecoded = false := by
  induction ops using List.reverseRecOn with
  | nil => rfl
  | append_singleton ops o ih =>
    rw [run, List.foldl_append]
    change ((run cfg ops {}).apply cfg o).ctx.isDecoded = false
    generalize run cfg ops {} = d at ih ⊢
    cases o with
    | parse nals eos => exact finishPacket_isDecoded cfg eos _
    | extraData nals => exact (parserNals_isDecoded nals d).trans ih
    | flush => exact (outputRel_isDecoded.h265dFlush cfg d.ctx).trans ih
    | reset => exact (outputRel_isDecoded.h265dFlush cfg d.ctx).trans ih
    | callback slot =>
      show (h265dCallback cfg slot d.ctx).isDecoded = false
      unfold h265dCallback
      split_ifs <;> exact ih

/-! ### Two runs -/

theorem run_append (ops ops' : List CodedOp) (d : Decoder) :
    run cfg (ops ++ ops') d = run cfg ops' (run cfg ops d) := List.foldl_append ..

/-- A parameter set that no later slice uses, put in without harm, changes nothing that is
    decoded. -/
theorem unused_undisturbed (cfg : MppDecBaseCfg) (before after : List CodedOp) (ins : CodedNal)
    (place : Insertion) (hharmless : place.Harmless cfg (run cfg before {}) ins after)
    (hunused : ∀ n ∈ place.post ++ after.flatMap CodedOp.nals, ¬ n.UsesPps ins.ppsIds) :
    (run cfg (before ++ place.put ins ++ after) {}).ctx =
      (run cfg (before ++ place.without ++ after) {}).ctx := by
  rw [run_append, run_append, run_append, run_append]
  have hdecoded := run_isDecoded cfg before
  generalize run cfg before {} = d at hharmless hdecoded
  cases place with
  | inPacket pre post eos =>
    obtain ⟨hpost, hins⟩ := hharmless
    obtain ⟨l, f, hl, hf, heq⟩ := parserNals_harmless hpost hins
      fun n hn => hunused n (List.mem_append_left _ hn)
    refine SameBut.ctx (K := ins.ppsIds) (SameBut.run ?_ fun n hn =>
      hunused n (List.mem_append_right _ hn))
    refine ⟨l, f, hl, hf, ?_⟩
    show (parserNals cfg true (pre ++ ins :: post) d.start).1.finish cfg eos = _
    rw [heq]
    rfl
  | ownPacket =>
    obtain ⟨hins, hdue, nals, eos, rest, rfl, hne⟩ := hharmless
    have hnext := apply_harmless hins hdue hdecoded
    obtain ⟨l, f, hl, hf, heq⟩ := hnext.parserNals cfg true hne fun n hn =>
      hunused n (List.mem_append_right _ (List.mem_append_left _ hn))
    have hfirst : SameBut ins.ppsIds (d.apply cfg (.parse nals eos))
        ((d.apply cfg (.parse [ins] false)).apply cfg (.parse nals eos)) := by
      refine ⟨l, f, hl, hf, ?_⟩
      show (parserNals cfg true nals (d.apply cfg (.parse [ins] false)).start).1.finish cfg eos = _
      rw [heq]
      rfl
    exact (hfirst.run fun n hn =>
      hunused n (List.mem_append_right _ (List.mem_append_right _ hn))).ctx

end Decoder

/-! ### Two pictures -/

/-- An SPS. -/
def firstSps : HEVCSPS := { spsId := 0, log2MaxPocLsb := 4, numReorderPics := 0 }

/-- An SPS that differs from it in its id. -/
def secondSps : HEVCSPS := { firstSps with spsId := 1 }

/-- A PPS of the first SPS. -/
def codedPps (ppsId : ℕ) : CodedNal := .pps ppsId 0 fun _ => .accepted []

/-- The packet of an IDR picture, with its parameter sets. -/
def idrPacket : CodedOp :=
  .parse [.sps (.accepted firstSps), codedPps 0,
    .slice { nalUnitType := .idrWRadl, ppsId := 0, body := fun _ _ => {} }] false

/-- The packet of a picture that refers to it. -/
def trailInsertion : Insertion :=
  .inPacket [] [.slice {
    nalUnitType := .trailR, ppsId := 0
    body := fun _ _ => {
      picOrderCntLsb := 1
      shortTermRps := { numNegativePics := 1, deltaPocs := [(-1, true)] } } }] false

/-- A second PPS before the second picture. -/
theorem codedPps_undisturbed :
    (Decoder.run {} ([idrPacket] ++ trailInsertion.put (codedPps 5) ++ []) {}).ctx =
      (Decoder.run {} ([idrPacket] ++ trailInsertion.without ++ []) {}).ctx := by
  refine Decoder.unused_undisturbed {} [idrPacket] [] (codedPps 5) trailInsertion ?_ ?_
  · refine ⟨by simp, fun _ => ⟨?_, [], ?_⟩⟩
    · decide
    · decide
  · intro n hn
    rw [List.flatMap_nil, List.append_nil] at hn
    obtain rfl := List.mem_singleton.1 hn
    show ¬ (0 : ℕ) ∈ ({5} : Set ℕ)
    simp

/-- With a second SPS before the second picture, which no slice and no PPS refers to, that
    picture is left out: its sequence has no picture to begin with. -/
theorem secondSps_disturbs :
    (∀ n ∈ trailInsertion.post, ¬ n.UsesPps (CodedNal.sps (.accepted secondSps)).ppsIds) ∧
      (Decoder.run {} [idrPacket] {}).ppsList 0 = some ⟨0, firstSps.spsId, []⟩ ∧
      (Decoder.run {} ([idrPacket] ++ trailInsertion.without) {}).ctx.display = [0, 1] ∧
      (Decoder.run {} ([idrPacket] ++ trailInsertion.put (.sps (.accepted secondSps))) {}).ctx.display =
        [0] := by
  refine ⟨fun n hn => ?_, by decide +kernel, by decide +kernel, by decide +kernel⟩
  obtain rfl := List.mem_singleton.1 hn
  exact id

end Libmpp.H265d
