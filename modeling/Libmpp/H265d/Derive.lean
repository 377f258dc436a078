import Libmpp.H265d.RefPicSet

/-!
# When the decoder derives the reference picture set

`frameRps` derives the set of a first slice (`DerivesRps`) exactly when the header meets
`RpsDecodable` (`frameRps_derives_iff`). What else is needed holds of every state that the
decoder gets to: the frames of a sequence have different order counts
(`reachable_distinct`), and an IDR picture comes after the marks were taken
(`beginPicture_cleared`).
-/

namespace Libmpp.H265d

open List Option

/-! ### Frames that stay or go -/

/-- The frames in use were in use before, with the same order counts and sequences. -/
def Shrinks (s s' : HEVCContext) : Prop :=
  ∀ i, (s'.dpb i).slotIndex.isSome → (s.dpb i).slotIndex.isSome ∧
    (s'.dpb i).poc = (s.dpb i).poc ∧ (s'.dpb i).sequence = (s.dpb i).sequence

theorem Shrinks.of_dpb {s s' : HEVCContext} (h : s'.dpb = s.dpb) : Shrinks s s' := fun i hi => by
  rw [h] at hi
  exact ⟨hi, by rw [h], by rw [h]⟩

theorem Shrinks.trans {s t u : HEVCContext} (h₁ : Shrinks s t) (h₂ : Shrinks t u) :
    Shrinks s u := fun i hi => by
  obtain ⟨ht, hp, hq⟩ := h₂ i hi
  obtain ⟨hs, hp', hq'⟩ := h₁ i ht
  exact ⟨hs, hp.trans hp', hq.trans hq'⟩

variable {s : HEVCContext}

/-- Another frame at `i`, with the slot, the order count and the sequence of the old one. -/
theorem Shrinks.setFrame {i : Fin maxDpbSize} {f : HEVCFrame}
    (hs : f.slotIndex = (s.dpb i).slotIndex) (hp : f.poc = (s.dpb i).poc)
    (hq : f.sequence = (s.dpb i).sequence) : Shrinks s (s.setFrame i f) := fun j hj => by
  by_cases hji : j = i
  · subst hji
    rw [HEVCContext.setFrame_same] at hj ⊢
    exact ⟨hs ▸ hj, hp, hq⟩
  · rw [HEVCContext.setFrame_of_ne hji] at hj ⊢
    exact ⟨hj, rfl, rfl⟩

theorem Shrinks.unrefAll (s : HEVCContext) (clr : FrameFlags) : Shrinks s (unrefAll s clr) :=
  fun i hi => by
    obtain ⟨h₁, h₂⟩ := unrefFrame_isSome hi
    have h₂ : (H265d.unrefAll s clr).dpb i = _ := h₂
    rw [h₂]
    exact ⟨h₁, rfl, rfl⟩

theorem outputRel_shrinks : OutputRel Shrinks where
  refl _ := .of_dpb rfl
  trans := .trans
  display _ _ := .setFrame rfl rfl rfl
  release s := .unrefAll s {}
  advance _ _ := .of_dpb rfl
  fast _ := .of_dpb rfl

/-- In every sequence, the frames have different order counts. -/
def HEVCContext.DistinctAll (s : HEVCContext) : Prop :=
  ∀ i j, (s.dpb i).slotIndex.isSome → (s.dpb j).slotIndex.isSome →
    (s.dpb i).sequence = (s.dpb j).sequence → (s.dpb i).poc = (s.dpb j).poc → i = j

theorem HEVCContext.DistinctAll.distinctPocs (h : s.DistinctAll) :
    s.DistinctPocs := fun i j hi hj hpoc => by
  have hi' := hi
  have hj' := hj
  rw [HEVCContext.inSequence, Bool.and_eq_true, decide_eq_true_eq] at hi' hj'
  exact h i j hi'.1 hj'.1 (hi'.2.trans hj'.2.symm) hpoc

theorem HEVCContext.DistinctAll.shrink {s s' : HEVCContext} (h : s.DistinctAll)
    (hs : Shrinks s s') : s'.DistinctAll := fun i j hi hj hseq hpoc => by
  obtain ⟨hi, hip, hiq⟩ := hs i hi
  obtain ⟨hj, hjp, hjq⟩ := hs j hj
  exact h i j hi hj (by rw [← hiq, ← hjq, hseq]) (by rw [← hip, ← hjp, hpoc])

/-! ### Different order counts -/

theorem unmarked_adding (h : s.DistinctPocs) : Adding s (unmarked s) where
  seqDecode := rfl
  sps := rfl
  old i _ := sameFrame_markRef _ _
  made i hnone hsome := by
    rw [show (unmarked s).dpb i = markRef (s.dpb i) {} from rfl, markRef, hnone] at hsome
    cases hsome
  distinct := h
  entries l e he := by cases he
  unmarked i _ := rfl

/-- Frames of the current sequence that were added differ from all others. -/
theorem Adding.distinctAll {s₀ s : HEVCContext} (h : Adding s₀ s) (hd : s₀.DistinctAll) :
    s.DistinctAll := by
  intro i j hi hj hseq hpoc
  have hmade : ∀ k, (s.dpb k).slotIndex.isSome → (s₀.dpb k).slotIndex = none →
      s.inSequence k := fun k hk hnone => (h.made k hnone hk).1
  have hmem : ∀ k, (s.dpb k).slotIndex.isSome → (s.dpb k).sequence = s.seqDecode →
      s.inSequence k := fun k hk hq => by
    rw [HEVCContext.inSequence, hk, hq]
    simp
  have hsequence : ∀ k, s.inSequence k → (s.dpb k).sequence = s.seqDecode := fun k hk => by
    rw [HEVCContext.inSequence, Bool.and_eq_true, decide_eq_true_eq] at hk
    exact hk.2
  by_cases hoi : (s₀.dpb i).slotIndex = none
  · have hii := hmade i hi hoi
    exact h.distinct i j hii (hmem j hj (hseq ▸ hsequence i hii)) hpoc
  · by_cases hoj : (s₀.dpb j).slotIndex = none
    · have hjj := hmade j hj hoj
      exact h.distinct i j (hmem i hi (hseq ▸ hsequence j hjj)) hjj hpoc
    · have hoi := isSome_iff_ne_none.2 hoi
      have hoj := isSome_iff_ne_none.2 hoj
      refine hd i j hoi hoj ?_ ?_
      · rw [← (h.old i hoi).sequence, ← (h.old j hoj).sequence, hseq]
      · rw [← (h.old i hoi).poc, ← (h.old j hoj).poc, hpoc]

/-- Also when there was no frame for an entry, those before it were added. -/
theorem addCandidates_adding_fst {s₀ s : HEVCContext} (cs : List Candidate)
    (ha : Adding s₀ s) : Adding s₀ (addCandidates cs s).1 := by
  induction cs generalizing s with
  | nil => exact ha
  | cons c cs ih =>
    rw [addCandidates]
    cases h : addCandidateRef s c with
    | none => exact ha
    | some s₁ =>
      obtain ⟨i, hadds⟩ := adds_iff.1 h
      exact ih (hadds.adding ha)

variable (cfg : MppDecBaseCfg) (n : SliceNal)

theorem shrinks_flushForCra (s : HEVCContext) : Shrinks s (flushForCra cfg s) := by
  unfold flushForCra
  split_ifs
  · exact outputRel_shrinks.h265dFlush cfg s
  · exact .of_dpb rfl

theorem frameRps_distinct (h : s.DistinctAll) : (frameRps cfg s).1.DistinctAll := by
  unfold frameRps
  cases s.shortTermRps with
  | none => exact h.shrink (.of_dpb rfl)
  | some shortRps =>
    have hadd := (addCandidates_adding_fst (shortCandidates s.poc shortRps ++
      longCandidates s.longTermRps) (unmarked_adding h.distinctPocs)).distinctAll h
    dsimp only
    split_ifs
    · exact hadd.shrink ((Shrinks.unrefAll _ _).trans (shrinks_flushForCra cfg _))
    · exact hadd

/-- A frame that comes in use with an order count of its own. -/
theorem HEVCContext.DistinctAll.setFrame (h : s.DistinctAll)
    {i : Fin maxDpbSize} {f : HEVCFrame} (hi : (s.dpb i).slotIndex = none)
    (hf : ∀ j, (s.dpb j).slotIndex.isSome → (s.dpb j).sequence = f.sequence →
      (s.dpb j).poc ≠ f.poc) : (s.setFrame i f).DistinctAll := by
  intro j k hj hk hseq hpoc
  by_cases hji : j = i <;> by_cases hki : k = i
  · rw [hji, hki]
  · subst hji
    rw [setFrame_of_ne hki] at hk
    rw [setFrame_same, setFrame_of_ne hki] at hseq hpoc
    exact absurd hpoc.symm (hf k hk hseq.symm)
  · subst hki
    rw [setFrame_of_ne hji] at hj
    rw [setFrame_same, setFrame_of_ne hji] at hseq hpoc
    exact absurd hpoc (hf j hj hseq)
  · rw [setFrame_of_ne hji] at hj hseq hpoc
    rw [setFrame_of_ne hki] at hk hseq hpoc
    exact h j k hj hk hseq hpoc

theorem setNewRef_distinct {s s' : HEVCContext} {poc : ℤ} (h : s.DistinctAll)
    (hs : setNewRef s poc = some s') : s'.DistinctAll := by
  obtain ⟨i, hi, hnew, rfl⟩ := setNewRef_eq_some hs
  have hfree : (s.dpb i).slotIndex = none :=
    isNone_iff_eq_none.1 (Fin.find?_eq_some_iff.1 hi).1
  refine h.setFrame hfree fun j hj hseq => hnew j ?_
  rw [HEVCContext.inSequence, hj, hseq]
  simp

/-! ### What parsing does to the frames -/

theorem Shrinks.clearRefs (s : HEVCContext) : Shrinks s (clearRefs s) := .unrefAll s .refs

theorem shrinks_beginPicture (s : HEVCContext) : Shrinks s (beginPicture n s) := by
  have hseq : Shrinks s (if (s.nalUnitType.isIdr || s.nalUnitType.isBla) && n.firstSliceInPic then
      if s.nalUnitType.isIdr then
        clearRefs (nextSequence { s with firstSliceInPicFlag := n.firstSliceInPic })
      else nextSequence { s with firstSliceInPicFlag := n.firstSliceInPic }
    else { s with firstSliceInPicFlag := n.firstSliceInPic }) := by
    split_ifs
    · exact Shrinks.clearRefs _
    · exact .of_dpb rfl
    · exact .of_dpb rfl
  refine hseq.trans (.of_dpb ?_)
  unfold beginPicture
  dsimp only
  split_ifs <;> rfl

theorem shrinks_activateSps (s : HEVCContext) : Shrinks s (activateSps n s) := by
  unfold activateSps
  split
  · exact Shrinks.clearRefs s
  · exact .of_dpb rfl

theorem readPoc_dpb (s : HEVCContext) : (readPoc n s).dpb = s.dpb := by
  unfold readPoc
  by_cases hidr : s.nalUnitType.isIdr
  · rw [if_pos hidr]
  · rw [if_neg hidr]
    cases s.sps with
    | none => rfl
    | some sps =>
      dsimp only
      split_ifs <;> rfl

theorem keepPocTid0_dpb (s : HEVCContext) : (keepPocTid0 n s).dpb = s.dpb := by
  unfold keepPocTid0
  split_ifs <;> rfl

theorem shrinks_hlsSliceHeader (s : HEVCContext) : Shrinks s (hlsSliceHeader n s).1 := by
  have hb := shrinks_beginPicture n s
  have ha := hb.trans (shrinks_activateSps n _)
  unfold hlsSliceHeader
  dsimp only
  split_ifs
  · exact hb
  · exact ha
  · exact ha
  · exact ha.trans (.of_dpb (readPoc_dpb n _))
  · exact ha.trans (.of_dpb ((keepPocTid0_dpb n _).trans (readPoc_dpb n _)))

theorem shrinks_setOutput (s : HEVCContext) (frame : Option (Fin maxDpbSize)) (output : Bool) :
    Shrinks s (setOutput s frame output) := by
  cases frame with
  | none => exact .of_dpb rfl
  | some i => exact .setFrame rfl rfl rfl

theorem shrinks_handleMissRef (s : HEVCContext) : Shrinks s (handleMissRef cfg s) := by
  unfold handleMissRef
  split_ifs
  · exact .of_dpb rfl
  · exact (shrinks_setOutput _ _ _).trans
      ((outputRel_shrinks.h265dFlush cfg _).trans (shrinks_setOutput _ _ _))
  · exact .of_dpb rfl
  · split
    · exact .setFrame rfl rfl rfl
    · exact .of_dpb rfl

theorem hevcFrameStart_distinct (h : s.DistinctAll) : (hevcFrameStart cfg s).1.DistinctAll := by
  unfold hevcFrameStart
  split_ifs
  · exact h
  · have hrps := frameRps_distinct (s := { s with
      isDecoded := false, firstNalType := some s.nalUnitType, missRefFlag := false }) cfg h
    dsimp only
    split_ifs
    · split
      · rename_i hnew
        exact (setNewRef_distinct hrps hnew).shrink (shrinks_handleMissRef cfg _)
      · exact hrps
    · exact hrps

theorem followRecovery_dpb (s : HEVCContext) : (followRecovery s).dpb = s.dpb := by
  unfold followRecovery
  dsimp only
  split_ifs <;> rfl

theorem setMaxRa_dpb (s : HEVCContext) : (setMaxRa s).dpb = s.dpb := by
  unfold setMaxRa
  split_ifs <;> rfl

theorem decodeSlice_distinct (h : s.DistinctAll) : (decodeSlice cfg s).1.DistinctAll := by
  have h : (setMaxRa (followRecovery s)).DistinctAll :=
    h.shrink (.of_dpb ((setMaxRa_dpb _).trans (followRecovery_dpb s)))
  unfold decodeSlice
  generalize setMaxRa (followRecovery s) = s at h
  dsimp only
  have hra : (passRasl s).DistinctAll := by
    unfold passRasl
    split_ifs <;> exact h
  generalize passRasl s = t at hra
  have hstart := hevcFrameStart_distinct cfg hra
  generalize hevcFrameStart cfg t = r at hstart
  obtain ⟨u, ok⟩ := r
  split_ifs
  · exact h
  · cases ok
    · exact hstart
    · dsimp only
      split_ifs <;> exact hstart
  · exact hra
  · exact hra

theorem seiRecovery_dpb (s : HEVCContext) (points : List (Option ℤ)) :
    (seiRecovery s points).dpb = s.dpb := by
  unfold seiRecovery
  induction points generalizing s with
  | nil => rfl
  | cons p points ih =>
    rw [foldl_cons, ih]
    cases p <;> rfl

theorem parserNalUnit_distinct (task : Bool) (n : Nal)
    (h : s.DistinctAll) : (parserNalUnit cfg task s n).1.DistinctAll := by
  cases n with
  | slice n =>
    have hs : (hlsSliceHeader n { s with nalUnitType := n.nalUnitType }).1.DistinctAll :=
      h.shrink ((Shrinks.of_dpb rfl).trans (shrinks_hlsSliceHeader n _))
    unfold parserNalUnit
    dsimp only
    split_ifs
    · generalize hlsSliceHeader n { s with nalUnitType := n.nalUnitType } = r at hs
      obtain ⟨t, ok⟩ := r
      cases ok
      · exact hs
      · exact decodeSlice_distinct cfg hs
    · exact h
  | endOfSeq t => exact h
  | sei t points => exact h.shrink (.of_dpb (seiRecovery_dpb _ points))
  | passive t accepted => exact h

theorem parserNalUnits_distinct (task : Bool)
    (ns : List Nal) (h : s.DistinctAll) : (parserNalUnits cfg task ns s).DistinctAll := by
  induction ns generalizing s with
  | nil => exact h
  | cons n ns ih =>
    have hn := parserNalUnit_distinct cfg task n h
    rw [parserNalUnits]
    generalize parserNalUnit cfg task s n = r at hn
    obtain ⟨t, ok⟩ := r
    cases ok
    · exact hn
    · exact ih hn

theorem finishPacket_shrinks (eos : Bool) (s : HEVCContext) :
    Shrinks s (finishPacket cfg eos s) := by
  have hflush : Shrinks s (if eos then h265dFlush cfg s else s) := by
    split_ifs
    · exact outputRel_shrinks.h265dFlush cfg s
    · exact .of_dpb rfl
  unfold finishPacket
  refine hflush.trans ?_
  generalize (if eos then h265dFlush cfg s else s) = t
  exact (Shrinks.of_dpb rfl).trans (outputRel_shrinks.outputFrame cfg false { t with isDecoded := false })

theorem shrinks_h265dCallback (slot : ℕ) (s : HEVCContext) :
    Shrinks s (h265dCallback cfg slot s) := by
  unfold h265dCallback
  by_cases herr : cfg.disableError
  · rw [if_pos herr]
    exact .of_dpb rfl
  · rw [if_neg herr]
    intro i hi
    dsimp only at hi ⊢
    split_ifs at hi ⊢
    · exact ⟨hi, rfl, rfl⟩
    · exact ⟨hi, rfl, rfl⟩

/-- In every state that the decoder gets to, the frames of a sequence have different order
    counts. -/
theorem reachable_distinct {cfg : MppDecBaseCfg}
    (h : (decoder cfg).Reachable s) : s.DistinctAll := by
  refine h.invariant ?_ ?_
  · rintro s rfl i j hi
    cases hi
  · rintro s e s' - hs rfl
    cases e with
    | op o =>
      cases o with
      | parse nals eos =>
        have hs : ({ s with ref := none } : HEVCContext).DistinctAll := hs
        exact (parserNalUnits_distinct cfg true nals hs).shrink (finishPacket_shrinks cfg eos _)
      | extraData nals => exact parserNalUnits_distinct cfg false nals hs
      | flush => exact hs.shrink (outputRel_shrinks.h265dFlush cfg s)
      | reset =>
        exact hs.shrink ((outputRel_shrinks.h265dFlush cfg s).trans (Shrinks.unrefAll _ .all))
      | callback slot => exact hs.shrink (shrinks_h265dCallback cfg slot s)
    | start => exact hs
    | nal task n => exact parserNalUnit_distinct cfg task n hs

/-! ### The context of a first slice -/

/-- No frame is a reference, and those in use wait for output. -/
def HEVCContext.Cleared (s : HEVCContext) : Prop :=
  ∀ i, (s.dpb i).slotIndex.isSome → (s.dpb i).flags.isRef = false ∧ (s.dpb i).flags.output = true

theorem clearRefs_cleared (s : HEVCContext) : (clearRefs s).Cleared := by
  intro i hi
  have hdpb : (clearRefs s).dpb i = unrefFrame (s.dpb i) .refs := rfl
  rw [hdpb] at hi ⊢
  obtain ⟨hsome, heq⟩ := unrefFrame_isSome hi
  refine ⟨by rw [heq]; simp [FrameFlags.isRef, FrameFlags.without, FrameFlags.refs], ?_⟩
  by_contra hout
  -- The frame has no flag left, so it was released.
  have hnone : (s.dpb i).flags.without .refs = {} := by
    rw [heq] at hout
    have hout : ((s.dpb i).flags.without .refs).output = false := by simpa using hout
    rw [FrameFlags.without, FrameFlags.mk.injEq]
    exact ⟨hout, Bool.and_false _, Bool.and_false _⟩
  rw [unrefFrame_release (isSome_iff_ne_none.1 hsome) hnone] at hi
  cases hi

theorem beginPicture_cleared {n : SliceNal} (hidr : s.nalUnitType.isIdr)
    (hfirst : n.firstSliceInPic) : (beginPicture n s).Cleared := by
  have hdpb : (beginPicture n s).dpb =
      (clearRefs (nextSequence { s with firstSliceInPicFlag := n.firstSliceInPic })).dpb := by
    unfold beginPicture
    simp only [hidr, hfirst, Bool.true_or, Bool.and_self, if_true]
    split_ifs <;> rfl
  intro i hi
  rw [hdpb] at hi ⊢
  exact clearRefs_cleared _ i hi

theorem activateSps_cleared (h : s.Cleared) : (activateSps n s).Cleared := by
  unfold activateSps
  cases n.newSps with
  | none => exact h
  | some sps => exact clearRefs_cleared s

theorem beginPicture_nalUnitType (s : HEVCContext) :
    (beginPicture n s).nalUnitType = s.nalUnitType := by
  unfold beginPicture
  dsimp only
  split_ifs <;> rfl

theorem activateSps_nalUnitType (s : HEVCContext) :
    (activateSps n s).nalUnitType = s.nalUnitType := by
  unfold activateSps
  cases n.newSps <;> rfl

/-- The context that the reference picture set of a first slice is derived in: that of an
    IDR picture, or one with the set of the header. -/
theorem hlsSliceHeader_first {n : SliceNal} {s s₁ : HEVCContext} {sps : HEVCSPS}
    (hfirst : n.firstSliceInPic) (hhdr : hlsSliceHeader n s = (s₁, true))
    (hsps : s₁.sps = some sps) :
    (s₁.shortTermRps = none ∧ s₁.Cleared) ∨
      (s₁.shortTermRps = some n.shortTermRps ∧
        s₁.longTermRps = decodeLtRps sps s₁.poc n.picOrderCntLsb n.longTermRps) := by
  unfold hlsSliceHeader at hhdr
  have hcleared : s.nalUnitType.isIdr → (activateSps n (beginPicture n s)).Cleared := fun h =>
    activateSps_cleared n (beginPicture_cleared h hfirst)
  have htype : (activateSps n (beginPicture n s)).nalUnitType = s.nalUnitType := by
    rw [activateSps_nalUnitType, beginPicture_nalUnitType]
  simp only [hfirst, not_true_eq_false, and_false, if_false] at hhdr
  generalize activateSps n (beginPicture n s) = t at hhdr hcleared htype
  split_ifs at hhdr with h₁ h₂ h₃
  · cases congrArg Prod.snd hhdr
  · cases congrArg Prod.snd hhdr
  · cases congrArg Prod.snd hhdr
  obtain rfl : keepPocTid0 n (readPoc n t) = s₁ := congrArg Prod.fst hhdr
  have hkeep : (keepPocTid0 n (readPoc n t)).shortTermRps = (readPoc n t).shortTermRps ∧
      (keepPocTid0 n (readPoc n t)).longTermRps = (readPoc n t).longTermRps ∧
      (keepPocTid0 n (readPoc n t)).poc = (readPoc n t).poc ∧
      (keepPocTid0 n (readPoc n t)).sps = (readPoc n t).sps := by
    unfold keepPocTid0
    split_ifs <;> exact ⟨rfl, rfl, rfl, rfl⟩
  rw [hkeep.1, hkeep.2.1, hkeep.2.2.1]
  rw [hkeep.2.2.2] at hsps
  by_cases hidr : t.nalUnitType.isIdr
  · refine .inl ⟨?_, fun i hi => ?_⟩
    · rw [readPoc, if_pos hidr]
    · rw [keepPocTid0_dpb, readPoc_dpb] at hi ⊢
      exact hcleared (htype ▸ hidr) i hi
  · refine .inr ?_
    unfold readPoc at hsps ⊢
    rw [if_neg hidr] at hsps ⊢
    cases ht : t.sps with
    | none =>
      rw [ht] at hsps
      rw [ht] at hsps
      cases hsps
    | some sps' =>
      rw [ht] at hsps
      simp only [hfirst, if_true, h₃, if_false] at hsps ⊢
      rw [← some.inj hsps]
      exact ⟨trivial, rfl⟩

/-! ### What the entries are looked up by -/

/-- The low bits are left when a number is wrapped. -/
theorem wrap32_emod {bits : ℕ} (hbits : bits ≤ 16) (x : ℤ) :
    wrap32 x % 2 ^ bits = x % 2 ^ bits := by
  have hdvd : (2 ^ bits : ℤ) ∣ (2 ^ 32 : ℕ) := pow_dvd_pow (2 : ℤ) (by omega : bits ≤ 32)
  rw [wrap32, ← Int.emod_emod_of_dvd (x.bmod (2 ^ 32)) hdvd, Int.bmod_emod,
    Int.emod_emod_of_dvd _ hdvd]

theorem aligned_short {bits : ℕ} (hlog : bits ≤ 16) (poc : ℤ) (rps : ShortTermRPS) :
    List.Forall₂ (Aligned (2 ^ bits)) (shortCandidates poc rps) (shortWants poc rps) := by
  refine forall₂_map_left_iff.2 (forall₂_map_right_iff.2 (forall₂_same.2 fun e _ =>
    ⟨rfl, rfl, fun _ => wrap32_emod hlog _, fun h => absurd rfl h⟩))

/-- The long-term entries, where `prevDeltaMsb` need not be the difference that the header
    stands for. -/
theorem aligned_long {base : ℤ} {bits nbSps : ℕ} {es : List CodedLongTerm} (hlog : bits ≤ 16)
    (hbits : ∀ e ∈ es, e.pocLsb < 2 ^ bits) (i : ℕ) (prevDeltaMsb prevDelta : ℤ) :
    List.Forall₂ (Aligned (2 ^ bits))
      (longCandidates (ltRpsLoop base (2 ^ bits) nbSps i prevDeltaMsb es))
      (longWantsFrom base (2 ^ bits) nbSps i prevDelta es) := by
  induction es generalizing i prevDeltaMsb prevDelta with
  | nil => exact .nil
  | cons e es ih =>
    have ih := ih fun e he => hbits e (mem_cons_of_mem _ he)
    have he := hbits e mem_cons_self
    have hlsb : ((e.pocLsb : ℤ)) % 2 ^ bits = e.pocLsb :=
      Int.emod_eq_of_lt (by positivity) (by exact_mod_cast he)
    rw [ltRpsLoop, longWantsFrom]
    cases hmsb : e.deltaPocMsbCycle with
    | none =>
      have hlow : wrap32 e.pocLsb = e.pocLsb := by
        have hsmall : 2 ^ bits ≤ 2 ^ 16 := Nat.pow_le_pow_right two_pos hlog
        have hlt : (e.pocLsb : ℤ) < 65536 := by exact_mod_cast he.trans_le hsmall
        rw [wrap32]
        exact Int.bmod_eq_of_le (by norm_num) (by norm_num; omega)
      rw [hlow]
      refine .cons ⟨rfl, ?_, fun h => ?_, fun _ => ⟨rfl, hlsb⟩⟩ (ih _ _ _)
      · rfl
      · cases h
    | some d =>
      refine .cons ⟨rfl, ?_, fun _ => ?_, fun h => ?_⟩ (ih _ _ _)
      · rfl
      · -- Whatever the differences are, the low bits are those that were coded.
        simp only [isSome_some, if_true]
        rw [wrap32_emod hlog, ← add_sub_assoc, ← add_sub_assoc, Int.sub_mul_emod_self_right,
          Int.sub_mul_emod_self_right]
      · exact absurd rfl h

/-- The entries of a header with few enough long-term pictures. -/
theorem aligned_entries {n : SliceNal} {sps : HEVCSPS} {rps : ShortTermRPS}
    (hrps : s.shortTermRps = some rps) (hsps : s.sps = some sps)
    (hlt : s.longTermRps = decodeLtRps sps s.poc n.picOrderCntLsb n.longTermRps)
    (hlog : sps.log2MaxPocLsb ≤ 16)
    (hbits : ∀ e ∈ n.longTermRps.entries sps, e.pocLsb < 2 ^ sps.log2MaxPocLsb)
    (hlen : sps.longTermRefPics.isSome → (n.longTermRps.entries sps).length ≤ 32) :
    List.Forall₂ (Aligned (2 ^ sps.log2MaxPocLsb))
      (shortCandidates s.poc rps ++ longCandidates s.longTermRps) (wants n s) := by
  rw [wants, hrps, hsps, hlt]
  refine rel_append (aligned_short hlog _ _) ?_
  unfold decodeLtRps longWants
  by_cases hlong : sps.longTermRefPics.isSome
  · have hnone : ¬ sps.longTermRefPics.isNone := by
      rw [isNone_iff_eq_none]
      exact isSome_iff_ne_none.1 hlong
    have hle := hlen hlong
    rw [if_neg (by rw [not_or]; exact ⟨hnone, by omega⟩), if_neg hnone]
    exact aligned_long hlog hbits 0 0 0
  · have hnone : sps.longTermRefPics.isNone := by simpa using hlong
    rw [if_pos (.inl hnone), if_pos hnone]
    exact .nil

/-! ### Marks -/

/-- The flag that the frames in a list have. -/
def RPSType.flag : RPSType → FrameFlags
  | .ltCurr | .ltFoll => { longRef := true }
  | _ => { shortRef := true }

/-- The frames in the lists are marked for them, and for nothing else. -/
def HEVCContext.Marked (s : HEVCContext) : Prop :=
  ∀ l i, takenOf s l i → (s.dpb i).flags.shortRef = l.flag.shortRef ∧
    (s.dpb i).flags.longRef = l.flag.longRef

theorem refFlag_of_mem {poc : ℤ} {rps : ShortTermRPS} {lt : LongTermRPS} {c : Candidate}
    (hc : c ∈ shortCandidates poc rps ++ longCandidates lt) : c.refFlag = c.list.flag := by
  rcases mem_append.1 hc with hc | hc
  · obtain ⟨⟨⟨delta, used⟩, i⟩, -, rfl⟩ := mem_map.1 hc
    dsimp only
    split_ifs <;> rfl
  · obtain ⟨⟨poc, used⟩, -, rfl⟩ := mem_map.1 hc
    dsimp only
    split_ifs <;> rfl

/-- Adding entries keeps the marks, when no frame gets in two lists. -/
theorem addCandidates_marked {cs : List Candidate} {s s' : HEVCContext}
    (hcs : ∀ c ∈ cs, c.refFlag = c.list.flag) (h : addCandidates cs s = (s', true))
    (hd : s'.DisjointLists) (hm : s.Marked) : s'.Marked := by
  induction cs generalizing s with
  | nil =>
    obtain rfl : s = s' := congrArg Prod.fst h
    exact hm
  | cons c cs ih =>
    obtain ⟨i, s₁, hadds, hrest⟩ := addCandidates_cons.1 h
    refine ih (fun c hc => hcs c (mem_cons_of_mem _ hc)) hrest fun l j hj => ?_
    have hx := addCandidates_extends hrest
    by_cases hji : j = i
    · subst hji
      obtain rfl : l = c.list := hd _ _ j (hx.taken hj) (hx.taken hadds.takenOf_same)
      obtain ⟨f, slots, rfl, -⟩ := hadds.picks
      rw [pick_dpb_same, ← hcs c mem_cons_self]
      exact ⟨rfl, rfl⟩
    · have hj' : takenOf s l j := by
        rw [hadds.takenOf_eq] at hj
        simpa [hji] using hj
      obtain ⟨f, slots, rfl, -⟩ := hadds.picks
      rw [pick_dpb_of_ne f slots hji]
      exact hm l j hj'

/-! ### Releasing and flushing -/

/-- What stays the same of a reference frame when others are released or output. -/
structure SameRef (f f' : HEVCFrame) : Prop where
  slotIndex : f'.slotIndex = f.slotIndex
  poc : f'.poc = f.poc
  sequence : f'.sequence = f.sequence
  shortRef : f'.flags.shortRef = f.flags.shortRef
  longRef : f'.flags.longRef = f.flags.longRef
  errorFlag : f'.errorFlag = f.errorFlag

/-- Frames were released or output; the references are as they were. -/
structure KeepsRefs (s s' : HEVCContext) : Prop where
  rps : s'.rps = s.rps
  seqDecode : s'.seqDecode = s.seqDecode
  same : ∀ i, (s.dpb i).flags.isRef → SameRef (s.dpb i) (s'.dpb i)
  unmarked : ∀ i, (s.dpb i).flags.isRef = false → (s'.dpb i).flags.isRef = false
  released : ∀ i, (s.dpb i).slotIndex = none → (s'.dpb i).slotIndex = none

theorem SameRef.isRef {f f' : HEVCFrame} (h : SameRef f f') : f'.flags.isRef = f.flags.isRef := by
  rw [FrameFlags.isRef, FrameFlags.isRef, h.shortRef, h.longRef]

theorem KeepsRefs.trans {s t u : HEVCContext} (h₁ : KeepsRefs s t) (h₂ : KeepsRefs t u) :
    KeepsRefs s u where
  rps := h₂.rps.trans h₁.rps
  seqDecode := h₂.seqDecode.trans h₁.seqDecode
  same i hi := by
    have hs := h₁.same i hi
    have ht := h₂.same i (hs.isRef.trans hi)
    exact ⟨ht.slotIndex.trans hs.slotIndex, ht.poc.trans hs.poc, ht.sequence.trans hs.sequence,
      ht.shortRef.trans hs.shortRef, ht.longRef.trans hs.longRef, ht.errorFlag.trans hs.errorFlag⟩
  unmarked i hi := h₂.unmarked i (h₁.unmarked i hi)
  released i hi := h₂.released i (h₁.released i hi)

/-- Only the frames matter. -/
theorem KeepsRefs.of_dpb {s s' : HEVCContext} (hr : s'.rps = s.rps)
    (hq : s'.seqDecode = s.seqDecode) (hd : s'.dpb = s.dpb) : KeepsRefs s s' where
  rps := hr
  seqDecode := hq
  same i _ := by
    rw [hd]
    exact ⟨rfl, rfl, rfl, rfl, rfl, rfl⟩
  unmarked i hi := by rwa [hd]
  released i hi := by rwa [hd]

theorem without_empty (f : FrameFlags) : f.without {} = f := by
  cases f
  simp [FrameFlags.without]

theorem keepsRefs_release (s : HEVCContext) : KeepsRefs s (unrefAll s {}) where
  rps := rfl
  seqDecode := rfl
  same i hi := by
    have hdpb : (unrefAll s {}).dpb i = unrefFrame (s.dpb i) {} := rfl
    have hne : (s.dpb i).flags.without {} ≠ {} := fun h => by
      rw [without_empty] at h
      rw [h] at hi
      cases hi
    rw [hdpb]
    by_cases hs : (s.dpb i).slotIndex = none
    · rw [unrefFrame_of_none hs]
      exact ⟨rfl, rfl, rfl, rfl, rfl, rfl⟩
    · rw [unrefFrame_keep hs hne, without_empty]
      exact ⟨rfl, rfl, rfl, rfl, rfl, rfl⟩
  unmarked i hi := by
    have hdpb : (unrefAll s {}).dpb i = unrefFrame (s.dpb i) {} := rfl
    rw [hdpb]
    by_cases hs : (s.dpb i).slotIndex = none
    · rwa [unrefFrame_of_none hs]
    · by_cases hne : (s.dpb i).flags.without {} = {}
      · rw [unrefFrame_release hs hne]
        rfl
      · rw [unrefFrame_keep hs hne, without_empty]
        exact hi
  released i hi := by
    have hdpb : (unrefAll s {}).dpb i = unrefFrame (s.dpb i) {} := rfl
    rw [hdpb, unrefFrame_of_none hi, hi]

theorem keepsRefs_display (s : HEVCContext) (i : Fin maxDpbSize) :
    KeepsRefs s (displayFrame s i) := by
  have hcases : ∀ j, (displayFrame s i).dpb j = s.dpb j ∨
      (displayFrame s i).dpb j =
        { s.dpb j with flags := { (s.dpb j).flags with output := false } } := fun j => by
    by_cases hji : j = i
    · subst hji
      exact .inr (HEVCContext.setFrame_same s j _)
    · exact .inl (HEVCContext.setFrame_of_ne hji)
  refine ⟨rfl, rfl, fun j _ => ?_, fun j hj => ?_, fun j hj => ?_⟩
  · rcases hcases j with h | h <;> rw [h] <;> exact ⟨rfl, rfl, rfl, rfl, rfl, rfl⟩
  · rcases hcases j with h | h <;> rw [h] <;> exact hj
  · rcases hcases j with h | h <;> rw [h] <;> exact hj

theorem outputRel_keepsRefs : OutputRel KeepsRefs where
  refl _ := .of_dpb rfl rfl rfl
  trans := .trans
  display := keepsRefs_display
  release := keepsRefs_release
  advance _ _ := .of_dpb rfl rfl rfl
  fast _ := .of_dpb rfl rfl rfl

theorem keepsRefs_flushForCra (s : HEVCContext) : KeepsRefs s (flushForCra cfg s) := by
  unfold flushForCra
  split_ifs
  · exact outputRel_keepsRefs.h265dFlush cfg s
  · exact .of_dpb rfl rfl rfl

/-! ### The reference picture set -/

/-- `r`, the result of `mpp_hevc_frame_rps` for a slice with the header `n` in the context
    `s`, is the reference picture set of the slice. -/
structure DerivesRps (n : SliceNal) (s : HEVCContext) (r : HEVCContext × Bool) : Prop where
  ok : r.2 = true
  /-- The entries of each list are those that the header stands for, in their order. -/
  lists : ∀ l, List.Forall₂ (Resolves s r.1) ((wants n s).filter (·.list = l)) (r.1.rps l)
  disjoint : r.1.DisjointLists
  marked : r.1.Marked
  /-- The other frames are no references, and are released unless they wait for output. -/
  released : ∀ i, (s.dpb i).slotIndex.isSome → (∀ l, takenOf r.1 l i = false) →
    (r.1.dpb i).flags.isRef = false ∧
      ((s.dpb i).flags.output = false → (r.1.dpb i).slotIndex = none)
  bounded : ∀ l, (r.1.rps l).length ≤ maxRefs

/-- The slice header can be followed: for an IDR picture, the lists that are not cleared are
    empty anyway; for another one, no list gets too long, the long-term entries fit in their
    array, and every entry leads to what it stands for. -/
def RpsDecodable (s : HEVCContext) : Prop :=
  match s.shortTermRps with
  | none => s.rps .stFoll = [] ∧ s.rps .ltCurr = [] ∧ s.rps .ltFoll = []
  | some rps =>
    (∀ l, ((wants n s).filter (·.list = l)).length ≤ maxRefs) ∧
      (placesOf s s).Derivable s.maxPocLsb (fun _ _ => false)
        (((shortCandidates s.poc rps ++ longCandidates s.longTermRps).map Candidate.poc).zip
          (wants n s))

section FrameRps

variable {n : SliceNal} {s t u : HEVCContext} {w : Want} {e : RefPic}

/-- An entry is resolved after others were released or output as before. -/
theorem Resolves.keepsRefs (h : KeepsRefs t u) (ht : t.inSequence e.ref)
    (hm : (t.dpb e.ref).flags.isRef) : Resolves s u w e ↔ Resolves s t w e := by
  have hsame := h.same e.ref hm
  have hu : u.inSequence e.ref := by
    rw [HEVCContext.inSequence, hsame.slotIndex, hsame.sequence, h.seqDecode]
    exact ht
  constructor
  · intro hr
    refine ⟨hr.found, fun hno => ?_⟩
    obtain ⟨h₁, h₂, -, h₄, h₅⟩ := hr.missing hno
    exact ⟨h₁, h₂, ht, hsame.poc.symm.trans h₄, hsame.errorFlag ▸ h₅⟩
  · intro hr
    refine ⟨hr.found, fun hno => ?_⟩
    obtain ⟨h₁, h₂, -, h₄, h₅⟩ := hr.missing hno
    exact ⟨h₁, h₂, hu, hsame.poc.trans h₄, hsame.errorFlag ▸ h₅⟩

theorem takenOf_of_mem {l : RPSType} (he : e ∈ t.rps l) : takenOf t l e.ref :=
  any_eq_true.2 ⟨e, he, decide_eq_true rfl⟩

theorem HEVCContext.Marked.isRef {i : Fin maxDpbSize} {l : RPSType} (hm : t.Marked)
    (hi : takenOf t l i) : (t.dpb i).flags.isRef := by
  rw [FrameFlags.isRef, (hm l i hi).1, (hm l i hi).2]
  cases l <;> rfl

theorem takenOf_keepsRefs (h : KeepsRefs t u) : takenOf u = takenOf t := by
  funext l i
  rw [takenOf, takenOf, h.rps]

theorem forall₂_congr_mem {α β : Type*} {R S : α → β → Prop} {l : List α} {l' : List β}
    (h : ∀ a, ∀ b ∈ l', (R a b ↔ S a b)) : List.Forall₂ R l l' ↔ List.Forall₂ S l l' := by
  induction l' generalizing l with
  | nil => rw [forall₂_nil_right_iff, forall₂_nil_right_iff]
  | cons b l' ih =>
    cases l with
    | nil => simp
    | cons a l =>
      rw [forall₂_cons, forall₂_cons, h a b mem_cons_self,
        ih fun a b hb => h a b (mem_cons_of_mem _ hb)]

/-- What the lists say is the same after others were released or output. -/
theorem lists_keepsRefs {ws : List Want} (h : KeepsRefs t u) (ha : Adding s t) (hm : t.Marked) :
    (∀ l, List.Forall₂ (Resolves s u) (ws.filter (·.list = l)) (u.rps l)) ↔
      ∀ l, List.Forall₂ (Resolves s t) (ws.filter (·.list = l)) (t.rps l) := by
  refine forall_congr' fun l => ?_
  rw [h.rps]
  have hiff : ∀ w, ∀ e ∈ t.rps l, (Resolves s u w e ↔ Resolves s t w e) := fun w e he =>
    Resolves.keepsRefs h (ha.entries l e he) (hm.isRef (takenOf_of_mem he))
  exact forall₂_congr_mem hiff

theorem longWantsFrom_list {base m : ℤ} {nbSps i : ℕ} {prev : ℤ} {es : List CodedLongTerm} :
    ∀ w ∈ longWantsFrom base m nbSps i prev es, w.list = .ltCurr ∨ w.list = .ltFoll := by
  induction es generalizing i prev with
  | nil => intro w hw; cases hw
  | cons e es ih =>
    intro w hw
    rw [longWantsFrom, mem_cons] at hw
    rcases hw with rfl | hw
    · cases e.used
      · exact .inr rfl
      · exact .inl rfl
    · exact ih w hw

theorem longWantsFrom_length (base m : ℤ) (nbSps i : ℕ) (prev : ℤ) (es : List CodedLongTerm) :
    (longWantsFrom base m nbSps i prev es).length = es.length := by
  induction es generalizing i prev with
  | nil => rfl
  | cons e es ih => rw [longWantsFrom, length_cons, length_cons, ih]

/-- Entries for two lists only, with not too many for either. -/
theorem length_le_of_lists {ws : List Want} {k : ℕ}
    (hlist : ∀ w ∈ ws, w.list = .ltCurr ∨ w.list = .ltFoll)
    (hlen : ∀ l, (ws.filter (·.list = l)).length ≤ k) : ws.length ≤ k + k := by
  have hsplit : ws.length =
      (ws.filter (·.list = .ltCurr)).length + (ws.filter (·.list = .ltFoll)).length := by
    clear hlen
    induction ws with
    | nil => rfl
    | cons w ws ih =>
      have ih := ih fun w hw => hlist w (mem_cons_of_mem _ hw)
      rcases hlist w mem_cons_self with h | h <;> simp [h, ih] <;> omega
  have h₁ := hlen .ltCurr
  have h₂ := hlen .ltFoll
  omega

/-- Lists that are not too long take no more long-term entries than the header has room
    for. -/
theorem entries_length_le {sps : HEVCSPS} {rps : ShortTermRPS}
    (hrps : s.shortTermRps = some rps) (hsps : s.sps = some sps)
    (hlen : ∀ l, ((wants n s).filter (·.list = l)).length ≤ maxRefs)
    (hlong : sps.longTermRefPics.isSome) : (n.longTermRps.entries sps).length ≤ 32 := by
  rw [wants, hrps, hsps] at hlen
  have hnone : ¬ sps.longTermRefPics.isNone := by
    rw [isNone_iff_eq_none]
    exact isSome_iff_ne_none.1 hlong
  rw [← longWantsFrom_length (s.poc - n.picOrderCntLsb) (2 ^ sps.log2MaxPocLsb)
    n.longTermRps.sps.length 0 0]
  refine length_le_of_lists (k := maxRefs) longWantsFrom_list fun l => ?_
  have h := hlen l
  dsimp only at h
  rw [longWants, if_neg hnone, filter_append, length_append] at h
  omega

/-- What `mpp_hevc_frame_rps` does with the entries of a header. -/
theorem frameRps_eq {cfg : MppDecBaseCfg} {rps : ShortTermRPS} (hrps : s.shortTermRps = some rps) :
    frameRps cfg s =
      if (addCandidates (shortCandidates s.poc rps ++ longCandidates s.longTermRps)
          (unmarked s)).2 then
        (flushForCra cfg (unrefAll (addCandidates (shortCandidates s.poc rps ++
          longCandidates s.longTermRps) (unmarked s)).1 {}), true)
      else ((addCandidates (shortCandidates s.poc rps ++ longCandidates s.longTermRps)
        (unmarked s)).1, false) := by
  unfold frameRps
  rw [hrps]

/-- The set is derived when the entries were added as they should be. -/
theorem derivesRps_iff {cfg : MppDecBaseCfg} {rps : ShortTermRPS}
    (hrps : s.shortTermRps = some rps) (hd : s.DistinctAll) :
    DerivesRps n s (frameRps cfg s) ↔
      (∀ l, ((wants n s).filter (·.list = l)).length ≤ maxRefs) ∧
        ∃ t, addCandidates (shortCandidates s.poc rps ++ longCandidates s.longTermRps)
            (unmarked s) = (t, true) ∧
          (∀ l, List.Forall₂ (Resolves s t) ((wants n s).filter (·.list = l)) (t.rps l)) ∧
          t.DisjointLists := by
  rw [frameRps_eq hrps]
  have hmarked : (unmarked s).Marked := fun l i hi => by cases hi
  have hflag : ∀ c ∈ shortCandidates s.poc rps ++ longCandidates s.longTermRps,
      c.refFlag = c.list.flag := fun c hc => refFlag_of_mem hc
  generalize shortCandidates s.poc rps ++ longCandidates s.longTermRps = cs at hflag
  have hadding := addCandidates_adding_fst cs (unmarked_adding hd.distinctPocs)
  cases hr : addCandidates cs (unmarked s) with
  | mk t ok =>
  rw [hr] at hadding
  cases ok with
  | false =>
    constructor
    · intro h
      cases h.ok
    · rintro ⟨-, t', ht', -⟩
      cases congrArg Prod.snd ht'
  | true =>
    have hkeeps : KeepsRefs t (flushForCra cfg (unrefAll t {})) :=
      (keepsRefs_release t).trans (keepsRefs_flushForCra cfg _)
    have hdisjoint : (flushForCra cfg (unrefAll t {})).DisjointLists ↔ t.DisjointLists := by
      rw [HEVCContext.DisjointLists, HEVCContext.DisjointLists, takenOf_keepsRefs hkeeps]
    dsimp only
    rw [if_pos rfl]
    constructor
    · intro h
      have htd := hdisjoint.1 h.disjoint
      have htm := addCandidates_marked hflag hr htd hmarked
      refine ⟨fun l => ?_, t, rfl, (lists_keepsRefs hkeeps hadding htm).1 h.lists, htd⟩
      rw [(h.lists l).length_eq]
      exact h.bounded l
    · rintro ⟨hlen, t', ht', hlists, htd⟩
      obtain rfl : t = t' := congrArg Prod.fst ht'
      have htm := addCandidates_marked hflag hr htd hmarked
      have hlists' := (lists_keepsRefs hkeeps hadding htm).2 hlists
      refine ⟨rfl, hlists', hdisjoint.2 htd, fun l i hi => ?_, fun i hi hno => ?_, fun l => ?_⟩
      · rw [takenOf_keepsRefs hkeeps] at hi
        have hsame := hkeeps.same i (htm.isRef hi)
        rw [hsame.shortRef, hsame.longRef]
        exact htm l i hi
      · rw [takenOf_keepsRefs hkeeps] at hno
        have hunmarked := hadding.unmarked i hno
        refine ⟨hkeeps.unmarked i hunmarked, fun hout => ?_⟩
        -- No flag is left, so the frame is released before the buffer is flushed.
        refine (keepsRefs_flushForCra cfg _).released i ?_
        have hold := hadding.old i hi
        have hnone : (t.dpb i).flags.without {} = {} := by
          rw [without_empty]
          have hout' := hold.output.trans hout
          rw [FrameFlags.isRef, Bool.or_eq_false_iff] at hunmarked
          cases hf : (t.dpb i).flags
          rw [hf] at hout' hunmarked
          rw [FrameFlags.mk.injEq]
          exact ⟨hout', hunmarked⟩
        have hslot : (t.dpb i).slotIndex ≠ none := by
          rw [hold.slotIndex]
          exact isSome_iff_ne_none.1 hi
        have hdpb : (unrefAll t {}).dpb i = unrefFrame (t.dpb i) {} := rfl
        rw [hdpb, unrefFrame_release hslot hnone]
      · rw [← (hlists' l).length_eq]
        exact hlen l

end FrameRps

/-- The set of an IDR picture is empty. -/
theorem derivesRps_of_empty {n : SliceNal} {s u : HEVCContext} (hclear : s.Cleared)
    (hwants : wants n s = []) (hdpb : u.dpb = s.dpb) (hrps : ∀ l, u.rps l = []) :
    DerivesRps n s (u, true) := by
  have htaken : ∀ l i, takenOf u l i = false := fun l i => by
    rw [takenOf, hrps l]
    rfl
  refine ⟨rfl, fun l => ?_, fun l l' i hl => ?_, fun l i hl => ?_, fun i hi _ => ?_, fun l => ?_⟩
  · rw [hwants, hrps l]
    exact .nil
  · rw [htaken l i] at hl
    cases hl
  · rw [htaken l i] at hl
    cases hl
  · rw [hdpb]
    refine ⟨(hclear i hi).1, fun hout => ?_⟩
    rw [(hclear i hi).2] at hout
    cases hout
  · rw [hrps l]
    exact Nat.zero_le _

/-- The decoder derives the empty set of an IDR picture when the lists that it does not
    clear are empty. -/
theorem derivesRps_idr_iff (cfg : MppDecBaseCfg) {n : SliceNal} {s : HEVCContext}
    (hnone : s.shortTermRps = none) (hclear : s.Cleared) :
    DerivesRps n s (frameRps cfg s) ↔
      s.rps .stFoll = [] ∧ s.rps .ltCurr = [] ∧ s.rps .ltFoll = [] := by
  have hwants : wants n s = [] := by rw [wants, hnone]
  unfold frameRps
  rw [hnone]
  constructor
  · intro h
    have hempty : ∀ l, Function.update (Function.update s.rps .stCurrBef []) .stCurrAft [] l =
        [] := fun l => by
      have hl := h.lists l
      rw [hwants] at hl
      exact forall₂_nil_left_iff.1 hl
    exact ⟨hempty .stFoll, hempty .ltCurr, hempty .ltFoll⟩
  · rintro ⟨h₁, h₂, h₃⟩
    refine derivesRps_of_empty hclear hwants rfl fun l => ?_
    cases l with
    | stCurrBef | stCurrAft => rfl
    | stFoll => exact h₁
    | ltCurr => exact h₂
    | ltFoll => exact h₃

/-- `mpp_hevc_frame_rps` derives the reference picture set of a first slice, in any state that
    the decoder gets to, exactly when the header can be followed. Order counts have 16 low bits at
    most, as the SPS is read, and those of the long-term entries are coded in as many bits. -/
theorem frameRps_derives_iff (cfg : MppDecBaseCfg) {s s₁ : HEVCContext}
    (hs : (decoder cfg).Reachable s) {n : SliceNal} (hfirst : n.firstSliceInPic)
    (hhdr : hlsSliceHeader n { s with nalUnitType := n.nalUnitType } = (s₁, true))
    {sps : HEVCSPS} (hsps : s₁.sps = some sps) (hlog : sps.log2MaxPocLsb ≤ 16)
    (hbits : ∀ e ∈ n.longTermRps.entries sps, e.pocLsb < 2 ^ sps.log2MaxPocLsb) :
    DerivesRps n s₁ (frameRps cfg s₁) ↔ RpsDecodable n s₁ := by
  have hd : s₁.DistinctAll := by
    have hdist := reachable_distinct hs
    have hshrink := shrinks_hlsSliceHeader n { s with nalUnitType := n.nalUnitType }
    rw [hhdr] at hshrink
    exact hdist.shrink ((Shrinks.of_dpb rfl).trans hshrink)
  rcases hlsSliceHeader_first hfirst hhdr hsps with ⟨hnone, hclear⟩ | ⟨hrps, hlt⟩
  · rw [derivesRps_idr_iff cfg hnone hclear, RpsDecodable, hnone]
  · rw [derivesRps_iff hrps hd, RpsDecodable, hrps]
    refine and_congr_right fun hlen => ?_
    have hm : s₁.maxPocLsb = 2 ^ sps.log2MaxPocLsb := by
      rw [HEVCContext.maxPocLsb, hsps]
      rfl
    have haligned := aligned_entries hrps hsps hlt hlog hbits (entries_length_le hrps hsps hlen)
    rw [← hm] at haligned
    exact addCandidates_iff haligned (unmarked_adding hd.distinctPocs)
      fun l l' i hl => by cases hl

/-! ### Streams with a slice a packet -/

/-- An SPS with four bits for the order count. -/
def smallSps : HEVCSPS := { spsId := 0, log2MaxPocLsb := 4, numReorderPics := 0 }

/-- The first slice of a stream. -/
def idrSlice : SliceNal := { nalUnitType := .idrWRadl, newSps := some smallSps }

/-- A slice of a picture that refers to those at the distances `deltas`. -/
def trailSlice (lsb : ℕ) (deltas : List ℤ) : SliceNal where
  nalUnitType := .trailR
  picOrderCntLsb := lsb
  shortTermRps := { numNegativePics := deltas.length, deltaPocs := deltas.map fun d => (d, true) }

/-- The decoder after packets of a slice each. -/
def afterSlices (cfg : MppDecBaseCfg) (ns : List SliceNal) : HEVCContext :=
  ns.foldl (fun s n => h265dParse cfg [.slice n] false s) {}

theorem reachable_afterSlices (cfg : MppDecBaseCfg) (ns : List SliceNal) :
    (decoder cfg).Reachable (afterSlices cfg ns) := by
  induction ns using List.reverseRecOn with
  | nil => exact .init rfl
  | append_singleton ns n ih =>
    rw [afterSlices, foldl_append]
    exact .step (a := .op (.parse [.slice n] false)) ih rfl

/-- The context in which the set of a further slice is derived. -/
def atSlice (ns : List SliceNal) (n : SliceNal) : HEVCContext :=
  (hlsSliceHeader n { afterSlices {} ns with nalUnitType := n.nalUnitType }).1

theorem hlsSliceHeader_atSlice {ns : List SliceNal} {n : SliceNal}
    (h : (hlsSliceHeader n { afterSlices {} ns with nalUnitType := n.nalUnitType }).2 = true) :
    hlsSliceHeader n { afterSlices {} ns with nalUnitType := n.nalUnitType } =
      (atSlice ns n, true) := Prod.ext rfl h

/-- The first picture after an IDR picture refers to that one. -/
theorem secondPicture_derived :
    DerivesRps (trailSlice 1 [-1]) (atSlice [idrSlice] (trailSlice 1 [-1]))
      (frameRps {} (atSlice [idrSlice] (trailSlice 1 [-1]))) := by
  have hsps : (atSlice [idrSlice] (trailSlice 1 [-1])).sps = some smallSps := by decide +kernel
  refine (frameRps_derives_iff {} (reachable_afterSlices {} [idrSlice]) rfl
    (hlsSliceHeader_atSlice (by decide)) hsps (by decide) fun e he => by cases he).2 ?_
  have hrps : (atSlice [idrSlice] (trailSlice 1 [-1])).shortTermRps =
      some ⟨1, [(-1, true)]⟩ := by decide +kernel
  have hentries : ((shortCandidates (atSlice [idrSlice] (trailSlice 1 [-1])).poc ⟨1, [(-1, true)]⟩ ++
      longCandidates (atSlice [idrSlice] (trailSlice 1 [-1])).longTermRps).map Candidate.poc).zip
      (wants (trailSlice 1 [-1]) (atSlice [idrSlice] (trailSlice 1 [-1]))) =
      [(0, ⟨.stCurrBef, 0, true⟩)] := by decide +kernel
  have hfirst : (placesOf (atSlice [idrSlice] (trailSlice 1 [-1]))
      (atSlice [idrSlice] (trailSlice 1 [-1]))).firstHolding
      (atSlice [idrSlice] (trailSlice 1 [-1])).maxPocLsb ⟨.stCurrBef, 0, true⟩ = some 0 := by
    decide +kernel
  rw [RpsDecodable, hrps]
  refine ⟨fun l => by cases l <;> decide +kernel, ?_⟩
  rw [hentries, Places.Derivable, hfirst]
  exact ⟨⟨by decide +kernel, .inl rfl⟩, fun l hl => (by cases hl), trivial⟩

/-- Four pictures, of which the second and the fourth have the same low bits, and the fourth
    has a place before the second. -/
def aliasStream : List SliceNal :=
  [idrSlice, trailSlice 8 [-8], trailSlice 0 [-8], trailSlice 8 [-16]]

/-- The fifth picture refers to those with the order counts 24 and 8; both entries get the
    frame that has 24. -/
theorem alias_not_derived :
    ∃ s n s₁, (decoder {}).Reachable s ∧ n.firstSliceInPic ∧
      hlsSliceHeader n { s with nalUnitType := n.nalUnitType } = (s₁, true) ∧
      s₁.sps = some smallSps ∧ smallSps.log2MaxPocLsb ≤ 16 ∧
      (∀ e ∈ n.longTermRps.entries smallSps, e.pocLsb < 2 ^ smallSps.log2MaxPocLsb) ∧
      ¬ DerivesRps n s₁ (frameRps {} s₁) := by
  have hsps : (atSlice aliasStream (trailSlice 9 [-1, -17])).sps = some smallSps := by
    decide +kernel
  refine ⟨_, _, _, reachable_afterSlices {} aliasStream, rfl,
    hlsSliceHeader_atSlice (by decide), hsps, by decide, fun e he => (by cases he), fun h => ?_⟩
  have hwants : (wants (trailSlice 9 [-1, -17]) (atSlice aliasStream (trailSlice 9 [-1, -17]))).filter
      (·.list = .stCurrBef) = [⟨.stCurrBef, 24, true⟩, ⟨.stCurrBef, 8, true⟩] := by decide +kernel
  have hrps : (frameRps {} (atSlice aliasStream (trailSlice 9 [-1, -17]))).1.rps .stCurrBef =
      [⟨24, 0⟩, ⟨24, 0⟩] := by decide +kernel
  have hseq : (atSlice aliasStream (trailSlice 9 [-1, -17])).inSequence 1 := by decide +kernel
  have hmatch : Want.matches ⟨.stCurrBef, 8, true⟩
      (atSlice aliasStream (trailSlice 9 [-1, -17])).maxPocLsb
      ((atSlice aliasStream (trailSlice 9 [-1, -17])).dpb 1).poc := by decide +kernel
  have hother : Want.matches ⟨.stCurrBef, 8, true⟩
      (atSlice aliasStream (trailSlice 9 [-1, -17])).maxPocLsb
      ((atSlice aliasStream (trailSlice 9 [-1, -17])).dpb 0).poc = false := by decide +kernel
  generalize atSlice aliasStream (trailSlice 9 [-1, -17]) = s₁ at *
  have hlist := h.lists .stCurrBef
  rw [hwants, hrps, forall₂_cons, forall₂_cons] at hlist
  -- The picture is in the place 1, so the entry should be a frame with its order count.
  have hfound := (hlist.2.1.found ⟨1, hseq, hmatch⟩).2.1
  exact Bool.false_ne_true (hother.symm.trans hfound)

end Libmpp.H265d
