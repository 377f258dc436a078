import Libmpp.H265d.Flush
import Libmpp.H265d.SliceRel

/-!
# Every picture is shown once

`Delivered` is what the decoder promises about its output: every picture that got a frame is
shown once, the sequences one after the other, each picture before those of its sequence
that come after it and still wait. It is so in every run whose packets are calm
(`packets_delivered`):

* a sequence begins only when its number, which has eight bits, is not that of the sequence
  that is output, or when no frame waits (`HEVCContext.HasRoom`);
* no picture has the order count `INT_MAX`, and an IRAP picture with a missing reference finds
  its own frame by its order count (`CalmStart`).

A run that is not calm loses a picture (`bla_loses_picture`).
-/

namespace Libmpp.H265d

/-! ### The condition -/

variable (cfg : MppDecBaseCfg) (s : HEVCContext)

/-- A sequence can begin. -/
def HEVCContext.HasRoom : Prop :=
  cfg.fastOut ∨ (s.seqDecode + 1) % 256 ≠ s.seqOutput ∨ s.Idle

/-- No frame before that of the picture has its order count. -/
def HEVCContext.FindsItself : Prop :=
  ∀ i, s.ref = some i → ∀ j < i, (s.dpb j).poc ≠ s.poc

/-- The context of a picture that has its references and its frame. -/
def placePicture : Option HEVCContext :=
  let r := frameRps cfg { s with
    isDecoded := false, firstNalType := some s.nalUnitType, missRefFlag := false }
  if r.2 then setNewRef r.1 r.1.poc else none

/-- An IRAP picture misses a reference, and all other frames are output. -/
def HEVCContext.FlushesOthers : Prop :=
  ¬ (cfg.disableError ∨ ¬ s.missRefFlag) ∧ s.nalUnitType.isIrap

/-- A picture that begins without harm to the output. -/
def CalmStart : Prop :=
  s.ref = none → ∀ t, placePicture cfg s = some t →
    t.poc < intMax ∧ (t.FlushesOthers cfg → t.FindsItself)

/-- A slice header that begins sequences only when there is room. -/
def CalmHeader (n : SliceNal) (s : HEVCContext) : Prop :=
  (((s.nalUnitType.isIdr || s.nalUnitType.isBla) && n.firstSliceInPic) → s.HasRoom cfg) ∧
    (n.newSps.isSome → n.stop ≠ .parameterSets → (beginPicture n s).HasRoom cfg)

/-- An accepted slice whose picture, if it begins one, begins without harm. -/
def CalmSlice : Prop :=
  let s := setMaxRa (followRecovery s)
  ¬ s.isSkipped cfg → (passRasl s).firstSliceInPicFlag → CalmStart cfg (passRasl s)

/-- A NAL unit without harm to the output. -/
def CalmNal (task : Bool) (s : HEVCContext) : Nal → Prop
  | .slice n =>
    let s := { s with nalUnitType := n.nalUnitType }
    task → CalmHeader cfg n s ∧ ((hlsSliceHeader n s).2 → CalmSlice cfg (hlsSliceHeader n s).1)
  | .endOfSeq _ => s.HasRoom cfg
  | .sei _ _ => True
  | .passive _ _ => True

/-- NAL units without harm to the output, up to the first that fails. -/
def CalmNals (cfg : MppDecBaseCfg) (task : Bool) : List Nal → HEVCContext → Prop
  | [], _ => True
  | n :: ns, s => CalmNal cfg task s n ∧
    ((parserNalUnit cfg task s n).2 → CalmNals cfg task ns (parserNalUnit cfg task s n).1)

/-- An operation without harm to the output. -/
def Op.Calm : Op → Prop
  | .parse nals _ => CalmNals cfg true nals { s with ref := none }
  | .extraData nals => CalmNals cfg false nals s
  | _ => True

/-- The decoder, between any two operations. -/
def packets : Machine HEVCContext Op where
  init s := s = {}
  step s o s' := s' = o.apply cfg s

/-- What the decoder promises about its output. A picture is named by the slot of its frame,
    and its era tells the sequence: it counts the changes of `seqDecode`. -/
structure Delivered (cfg : MppDecBaseCfg) (s : HEVCContext) : Prop where
  once : s.display.Nodup
  onlyPictures : ∀ n ∈ s.display, n ∈ s.pictures.map Prod.fst
  notMadeUp : ∀ n ∈ s.madeUp, n ∉ s.display
  shownOrWaits : ∀ n ∈ s.pictures.map Prod.fst, n ∉ s.display ↔ n ∈ s.due
  flushed : ∀ n ∈ s.pictures.map Prod.fst, n ∈ (h265dFlush cfg s).display
  sequences : s.display.Pairwise fun a b =>
    ∀ n m, (a, n) ∈ s.pictures → (b, m) ∈ s.pictures → n ≤ m
  sequencesWait : ∀ a ∈ s.display, ∀ b ∈ s.due,
    ∀ n m, (a, n) ∈ s.pictures → (b, m) ∈ s.pictures → n ≤ m
  first : ∀ p ∈ s.shown, ShownFirst p
  logged : s.display = s.shown.flatMap fun p => (p.1 p.2).slotIndex.toList

/-! ### Deriving the references -/

/-- The history of pictures and the current frame. -/
structure SameHistory (s t : HEVCContext) : Prop where
  pictures : t.pictures = s.pictures
  era : t.era = s.era
  ref : t.ref = s.ref

theorem pictureRel_sameHistory : PictureRel SameHistory where
  refl _ := ⟨rfl, rfl, rfl⟩
  trans h₁ h₂ := ⟨h₂.pictures.trans h₁.pictures, h₂.era.trans h₁.era, h₂.ref.trans h₁.ref⟩
  display _ _ := ⟨rfl, rfl, rfl⟩
  release _ := ⟨rfl, rfl, rfl⟩
  advance _ _ := ⟨rfl, rfl, rfl⟩
  fast _ := ⟨rfl, rfl, rfl⟩
  change _ _ _ _ _ _ _ _ _ _ := ⟨rfl, rfl, rfl⟩

namespace Live

variable {cfg : MppDecBaseCfg} {s t : HEVCContext} {born : List (ℕ × ℕ)} {e : ℕ}

/-- A frame for an entry of the reference picture set. -/
theorem adds (h : Live cfg s born e) {c : Candidate} {i : Fin maxDpbSize} (ha : Adds s c i t) :
    Live cfg t born e := by
  cases ha with
  | found hf =>
    have hq := quiet_setFrame s (i := i) (f := markRef (s.dpb i) c.refFlag) ⟨rfl, rfl, rfl, rfl⟩
    exact h.quiet (hq.trans (.of_eq rfl))
  | missing hf hfree =>
    have hnone : (s.dpb i).slotIndex = none :=
      Option.isNone_iff_eq_none.1 (Fin.find?_eq_some_iff.1 hfree).1
    have htake := h.take [s.slots] (f := markRef (missingFrame s c.poc) c.refFlag) hnone
      rfl rfl fun n hn => List.mem_singleton.1 hn
    exact htake.quiet (.of_eq rfl)

theorem addCandidates (h : Live cfg s born e) (cs : List Candidate) :
    Live cfg (addCandidates cs s).1 born e := by
  induction cs generalizing s with
  | nil => exact h
  | cons c cs ih =>
    rw [H265d.addCandidates]
    cases hc : addCandidateRef s c with
    | none => exact h
    | some s₁ =>
      obtain ⟨i, hadds⟩ := adds_iff.1 hc
      exact ih (h.adds hadds)

/-- The references of a picture. -/
theorem frameRps (h : Live cfg s born e) (hd : s.DistinctAll) :
    ∃ e', Live cfg (frameRps cfg s).1 born e' := by
  unfold H265d.frameRps
  cases s.shortTermRps with
  | none => exact ⟨e, h.quiet (.of_eq rfl)⟩
  | some shortRps =>
    have hunmark : Quiet s (unmarked s) :=
      ⟨fun i => .inl ⟨rfl, rfl, rfl, rfl⟩, rfl, rfl, rfl, rfl, rfl, rfl, rfl, rfl⟩
    have hadd := (h.quiet hunmark).addCandidates
      (shortCandidates s.poc shortRps ++ longCandidates s.longTermRps)
    have hdist := (addCandidates_adding_fst (shortCandidates s.poc shortRps ++
      longCandidates s.longTermRps) (unmarked_adding hd.distinctPocs)).distinctAll hd
    dsimp only
    split_ifs
    · have hfree := hadd.quiet (quiet_unrefAll _ {} rfl)
      unfold flushForCra
      split_ifs
      · exact (hfree.flush (hdist.shrink (.unrefAll _ _))).2
      · exact ⟨e, hfree⟩
    · exact ⟨e, hadd⟩

/-- Another frame becomes the current one. -/
theorem withRef (h : Live cfg s born e) (hidle : cfg.fastOut → s.Idle)
    (ref : Option (Fin maxDpbSize)) : Live cfg { s with ref } born e :=
  { h with
    atOnce := fun hfast i hi => by
      have hi : (s.dpb i).flags.output = true := hi
      rw [hidle hfast i] at hi
      cases hi }

/-- Without a current frame, no frame waits when frames are output at once. -/
theorem idle_of_ref (h : Live cfg s born e) (href : s.ref = none) (hfast : cfg.fastOut) :
    s.Idle := fun i => by
  by_contra hc
  have hi := h.atOnce hfast i (Bool.eq_true_of_not_eq_false hc)
  rw [href] at hi
  cases hi

end Live

/-! ### The frame of a picture -/

/-- The frame at `i` is that of a picture that was added, and waits. -/
structure Placed (s t : HEVCContext) (i : Fin maxDpbSize) : Prop where
  ref : t.ref = some i
  slotIndex : (t.dpb i).slotIndex = some s.slots
  poc : (t.dpb i).poc = t.poc
  sequence : (t.dpb i).sequence = t.seqDecode
  output : (t.dpb i).flags.output
  shortRef : (t.dpb i).flags.shortRef
  madeUp : t.madeUp = s.madeUp
  era : t.era = s.era
  pictures : t.pictures = s.pictures ++ [(s.slots, s.era)]

theorem setNewRef_placed {s t : HEVCContext} (hs : setNewRef s s.poc = some t) :
    ∃ i, Placed s t i := by
  obtain ⟨i, -, -, rfl⟩ := setNewRef_eq_some hs
  have hself : (s.setFrame i { s.dpb i with
      poc := s.poc, sequence := s.seqDecode, flags := { output := true, shortRef := true },
      slotIndex := some s.slots }).dpb i = _ := HEVCContext.setFrame_same _ _ _
  exact ⟨i, rfl, by rw [hself], by rw [hself]; rfl, by rw [hself]; rfl, by rw [hself],
    by rw [hself], rfl, rfl, rfl⟩

namespace Live

variable {cfg : MppDecBaseCfg} {s t : HEVCContext} {born : List (ℕ × ℕ)} {e : ℕ}

/-- Without its output flag, the new frame is like one that was made up. -/
theorem hidden (h : Live cfg s born e) (hidle : cfg.fastOut → s.Idle)
    (hs : setNewRef s s.poc = some t) {i : Fin maxDpbSize} (hi : t.ref = some i) :
    Live cfg (setOutput t (some i) false) born e ∧
      (cfg.fastOut → (setOutput t (some i) false).Idle) := by
  obtain ⟨k, hk, -, rfl⟩ := setNewRef_eq_some hs
  obtain rfl := Option.some.inj hi
  have hnone : (s.dpb k).slotIndex = none :=
    Option.isNone_iff_eq_none.1 (Fin.find?_eq_some_iff.1 hk).1
  have htake := h.take [] (f := { s.dpb k with
    poc := s.poc, sequence := s.seqDecode, flags := { shortRef := true },
    slotIndex := some s.slots }) hnone rfl rfl fun n hn => by cases hn
  have hidle' : cfg.fastOut → (s.setFrame k { s.dpb k with
      poc := s.poc, sequence := s.seqDecode, flags := { shortRef := true },
      slotIndex := some s.slots }).Idle := fun hfast j => by
    by_cases hjk : j = k
    · rw [hjk, HEVCContext.setFrame_same]
    · rw [HEVCContext.setFrame_of_ne hjk]
      exact hidle hfast j
  have hdpb : (setOutput { s.setFrame k { s.dpb k with
      poc := s.poc, sequence := s.seqDecode, flags := { output := true, shortRef := true },
      slotIndex := some s.slots } with
        slots := s.slots + 1
        ref := some k
        pictures := s.pictures ++ [(s.slots, s.era)] } (some k) false).dpb =
      (s.setFrame k { s.dpb k with
        poc := s.poc, sequence := s.seqDecode, flags := { shortRef := true },
        slotIndex := some s.slots }).dpb := by
    unfold setOutput HEVCContext.setFrame
    dsimp only
    rw [Function.update_self, Function.update_idem]
  constructor
  · refine (htake.withRef hidle' (some k)).quiet
      (.of_dpb hdpb rfl ?_ rfl rfl rfl rfl rfl rfl)
    exact (List.append_nil _).symm
  · intro hfast j
    rw [hdpb]
    exact hidle' hfast j

/-- The frame of a new picture waits, after others were output. -/
theorem bear_placed (h : Live cfg s born e) {i : Fin maxDpbSize} {v : HEVCContext} {e' : ℕ}
    (hv : Live cfg v born e') {f : HEVCFrame} (hslot : (v.dpb i).slotIndex = some s.slots)
    (hmade : v.madeUp = s.madeUp) (hera : v.era = s.era) (hfslot : f.slotIndex = some s.slots)
    (hout : f.flags.output) (hseq : f.sequence = v.seqDecode) (hpoc : f.poc < intMax)
    (href : cfg.fastOut → v.ref = some i ∧ v.Idle) :
    Live cfg (v.setFrame i f) (born ++ [(s.slots, s.era)]) e' := by
  have hborn : s.slots ∉ born.map Prod.fst := fun hmem => by
    obtain ⟨⟨n, m⟩, hn, hns⟩ := List.mem_map.1 hmem
    exact absurd (h.bornTaken n m hn) (hns ▸ lt_irrefl _)
  have hnew : s.slots ∉ v.madeUp := fun hmem =>
    lt_irrefl _ (h.missing s.slots (hmade ▸ hmem)).1
  have hbear := hv.bear hslot hfslot hborn hnew hout hseq hpoc href
  rwa [hera] at hbear

/-- A picture gets a frame. -/
theorem setNewRef (h : Live cfg s born e) (hidle : cfg.fastOut → s.Idle)
    (hs : setNewRef s s.poc = some t) (hpoc : t.poc < intMax) :
    Live cfg t (born ++ [(s.slots, s.era)]) e := by
  obtain ⟨i, hp⟩ := setNewRef_placed hs
  obtain ⟨hhid, hidle'⟩ := h.hidden hidle hs hp.ref
  have hself : (setOutput t (some i) false).dpb i = _ := HEVCContext.setFrame_same t i _
  have hbear := h.bear_placed hhid (f := t.dpb i) (by rw [hself]; exact hp.slotIndex) hp.madeUp
    hp.era hp.slotIndex hp.output hp.sequence (hp.poc ▸ hpoc) fun hfast => ⟨hp.ref, hidle' hfast⟩
  refine hbear.quiet (.of_dpb ?_ rfl rfl rfl rfl rfl rfl rfl rfl)
  unfold setOutput HEVCContext.setFrame
  dsimp only
  rw [Function.update_idem, Function.update_eq_self]

/-- All frames but that of the picture are output. -/
theorem flushOthers (h : Live cfg s born e) (hd : t.DistinctAll) (hidle : cfg.fastOut → s.Idle)
    (hs : H265d.setNewRef s s.poc = some t) (hpoc : t.poc < intMax) (hself : t.FindsItself) :
    ∃ e', Live cfg (flushOthers cfg t) (born ++ [(s.slots, s.era)]) e' := by
  obtain ⟨i, hp⟩ := setNewRef_placed hs
  obtain ⟨hhid, -⟩ := h.hidden hidle hs hp.ref
  have hfinds : t.withPoc = some i := by
    refine Fin.find?_eq_some_iff.2 ⟨decide_eq_true hp.poc, fun j hj => ?_⟩
    exact decide_eq_false_iff_not.2 (hself i hp.ref j hj)
  unfold H265d.flushOthers
  rw [hfinds]
  have hdist : (setOutput t (some i) false).DistinctAll := hd.shrink (shrinks_setOutput t _ _)
  obtain ⟨hidle', e', hflush⟩ := hhid.flush hdist
  have hhist := pictureRel_sameHistory.h265dFlush cfg (setOutput t (some i) false)
  have hmade : (h265dFlush cfg (setOutput t (some i) false)).madeUp = t.madeUp :=
    (OutputRel.mk (R := fun s t => t.madeUp = s.madeUp) (fun _ => rfl)
      (fun h₁ h₂ => h₂.trans h₁) (fun _ _ => rfl) (fun _ => rfl) (fun _ _ => rfl)
      (fun _ => rfl)).h265dFlush cfg _
  have hrefs := outputRel_keepsRefs.h265dFlush cfg (setOutput t (some i) false)
  have hframe : (setOutput t (some i) false).dpb i = _ := HEVCContext.setFrame_same t i _
  have hsame := hrefs.same i (by
    rw [hframe, FrameFlags.isRef]
    exact Bool.or_eq_true_iff.2 (.inl hp.shortRef))
  rw [hframe] at hsame
  exact ⟨e', h.bear_placed hflush (hsame.slotIndex.trans hp.slotIndex) (hmade.trans hp.madeUp)
    (hhist.era.trans hp.era) (hsame.slotIndex.trans hp.slotIndex) rfl
    (hsame.sequence.trans (hp.sequence.trans hrefs.seqDecode.symm))
    (lt_of_eq_of_lt (hsame.poc.trans hp.poc) hpoc)
    fun _ => ⟨hhist.ref.trans hp.ref, hidle'⟩⟩

end Live

/-- The decoder's output is in order, and so are the frames. -/
structure Flowing (cfg : MppDecBaseCfg) (s : HEVCContext) : Prop where
  distinct : s.DistinctAll
  live : ∃ e, Live cfg s s.pictures e

namespace Flowing

variable {cfg : MppDecBaseCfg} {s t : HEVCContext}

theorem quiet (h : Flowing cfg s) (hq : Quiet s t) (hd : Shrinks s t)
    (hp : t.pictures = s.pictures) : Flowing cfg t := by
  obtain ⟨e, he⟩ := h.live
  exact ⟨h.distinct.shrink hd, e, hp ▸ he.quiet hq⟩

/-- A step on other fields. -/
theorem fields (h : Flowing cfg s) (heq : t.outputPart = s.outputPart)
    (hpictures : t.pictures = s.pictures) : Flowing cfg t :=
  h.quiet (.of_eq heq) (.of_dpb (congrArg Prod.fst heq)) hpictures

/-- What is done about a missing reference. -/
theorem handleMissRef (h : Flowing cfg s) (href : s.ref = none)
    (hs : setNewRef s s.poc = some t) (hpoc : t.poc < intMax)
    (hself : t.FlushesOthers cfg → t.FindsItself) : Flowing cfg (handleMissRef cfg t) := by
  obtain ⟨e, he⟩ := h.live
  obtain ⟨i, hp⟩ := setNewRef_placed hs
  have hd : t.DistinctAll := setNewRef_distinct h.distinct hs
  have hnew := he.setNewRef (he.idle_of_ref href) hs hpoc
  have ht : Flowing cfg t := ⟨hd, e, hp.pictures ▸ hnew⟩
  have hdist := hd.shrink (shrinks_handleMissRef cfg t)
  unfold H265d.handleMissRef at hdist ⊢
  split_ifs at hdist ⊢ with herr hirap hrec
  · exact ht
  · refine ⟨hdist, ?_⟩
    obtain ⟨e', he'⟩ := he.flushOthers hd (he.idle_of_ref href) hs hpoc (hself ⟨herr, hirap⟩)
    have hpics := (pictureRel_sameHistory.flushOthers cfg t).pictures.trans hp.pictures
    exact ⟨e', by rw [hpics]; exact he'⟩
  · exact ht.fields rfl rfl
  · split
    · rename_i k _
      exact ht.quiet (quiet_setFrame t ⟨rfl, rfl, rfl, rfl⟩) (.setFrame rfl rfl rfl) rfl
    · exact ht

/-- A sequence begins. -/
theorem nextSequence (h : Flowing cfg s) (hroom : s.HasRoom cfg) :
    Flowing cfg (nextSequence s) := by
  obtain ⟨e, he⟩ := h.live
  exact ⟨h.distinct.shrink (.of_dpb rfl), he.begin hroom⟩

/-- All references are released. -/
theorem clearRefs (h : Flowing cfg s) : Flowing cfg (clearRefs s) :=
  h.quiet (quiet_unrefAll s .refs rfl) (.clearRefs s) rfl

/-- The first slice of a picture. -/
theorem hevcFrameStart (h : Flowing cfg s) (hc : CalmStart cfg s) :
    Flowing cfg (hevcFrameStart cfg s).1 := by
  cases href : s.ref with
  | some i =>
    have hsome : s.ref.isSome := by rw [href]; rfl
    unfold H265d.hevcFrameStart
    rw [if_pos hsome]
    exact h
  | none =>
    have hnone : ¬ s.ref.isSome := by rw [href]; exact Bool.false_ne_true
    have hs : Flowing cfg { s with
        isDecoded := false, firstNalType := some s.nalUnitType, missRefFlag := false } :=
      h.fields rfl rfl
    have hrps : Flowing cfg (frameRps cfg { s with
        isDecoded := false, firstNalType := some s.nalUnitType, missRefFlag := false }).1 := by
      obtain ⟨e, he⟩ := hs.live
      obtain ⟨e', he'⟩ := he.frameRps hs.distinct
      refine ⟨frameRps_distinct cfg hs.distinct, e', ?_⟩
      rw [(pictureRel_sameHistory.frameRps cfg _).pictures]
      exact he'
    have hrefs := (pictureRel_sameHistory.frameRps cfg { s with
        isDecoded := false, firstNalType := some s.nalUnitType, missRefFlag := false }).ref
    have hcalm := hc href
    unfold placePicture at hcalm
    unfold H265d.hevcFrameStart
    rw [if_neg hnone]
    dsimp only at hcalm ⊢
    generalize frameRps cfg { s with
      isDecoded := false, firstNalType := some s.nalUnitType, missRefFlag := false } = r
      at hrps hrefs hcalm ⊢
    obtain ⟨t, ok⟩ := r
    have hnoref : t.ref = none := hrefs.trans href
    have hfail : Flowing cfg { t with ref := none } := by
      refine hrps.fields ?_ rfl
      show _ = t.outputPart
      rw [HEVCContext.outputPart, HEVCContext.outputPart, hnoref]
    cases ok with
    | false => exact hfail
    | true =>
      rw [if_pos rfl] at hcalm ⊢
      cases hnew : setNewRef t t.poc with
      | none => exact hfail
      | some u =>
        obtain ⟨hpoc, hself⟩ := hcalm u hnew
        exact hrps.handleMissRef hnoref hnew hpoc hself

/-- An accepted slice. -/
theorem decodeSlice (h : Flowing cfg s) (hc : CalmSlice cfg s) :
    Flowing cfg (decodeSlice cfg s).1 := by
  have hrec : Flowing cfg (setMaxRa (followRecovery s)) := by
    refine h.fields ?_ ?_ <;> unfold setMaxRa followRecovery <;> dsimp only <;> split_ifs <;> rfl
  unfold CalmSlice at hc
  unfold H265d.decodeSlice
  generalize setMaxRa (followRecovery s) = s at hc hrec
  dsimp only at hc ⊢
  have hpass : Flowing cfg (passRasl s) := by
    unfold passRasl
    split_ifs
    · exact hrec.fields rfl rfl
    · exact hrec
  split_ifs with hskip hfirst
  · exact hrec.fields rfl rfl
  · have hstart := hpass.hevcFrameStart (hc hskip hfirst)
    generalize H265d.hevcFrameStart cfg (passRasl s) = r at hstart ⊢
    obtain ⟨t, ok⟩ := r
    cases ok with
    | false => exact hstart
    | true =>
      dsimp only
      split_ifs
      · exact hstart.fields rfl rfl
      · exact hstart
  · exact hpass
  · exact hpass.fields rfl rfl

/-- The header of a slice. -/
theorem hlsSliceHeader {n : SliceNal} (h : Flowing cfg s) (hc : CalmHeader cfg n s) :
    Flowing cfg (hlsSliceHeader n s).1 := by
  obtain ⟨hbegin, hactivate⟩ := hc
  have hb : Flowing cfg (beginPicture n s) := by
    have hfirst : Flowing cfg { s with firstSliceInPicFlag := n.firstSliceInPic } :=
      h.fields rfl rfl
    have hseq : Flowing cfg (if (s.nalUnitType.isIdr || s.nalUnitType.isBla) && n.firstSliceInPic then
        if s.nalUnitType.isIdr then
          H265d.clearRefs (H265d.nextSequence { s with firstSliceInPicFlag := n.firstSliceInPic })
        else H265d.nextSequence { s with firstSliceInPicFlag := n.firstSliceInPic }
      else { s with firstSliceInPicFlag := n.firstSliceInPic }) := by
      split_ifs with hnew
      · exact (hfirst.nextSequence (hbegin hnew)).clearRefs
      · exact hfirst.nextSequence (hbegin hnew)
      · exact hfirst
    refine hseq.fields ?_ ?_ <;> unfold beginPicture <;> dsimp only <;> split_ifs <;> rfl
  have ha : n.stop ≠ .parameterSets → Flowing cfg (activateSps n (beginPicture n s)) := by
    intro hstop
    unfold activateSps
    cases hsps : n.newSps with
    | none => exact hb
    | some sps =>
      have hroom := hactivate (by rw [hsps]; rfl) hstop
      have hclear : Flowing cfg { H265d.clearRefs (beginPicture n s) with sps := some sps } :=
        hb.clearRefs.fields rfl rfl
      refine hclear.nextSequence ?_
      rcases hroom with hfast | hnum | hidle
      · exact .inl hfast
      · exact .inr (.inl hnum)
      · exact .inr (.inr ((quiet_unrefAll _ .refs rfl).idle hidle))
  have hread : ∀ u, Flowing cfg u → Flowing cfg (readPoc n u) := by
    intro u hu
    unfold readPoc
    by_cases hidr : u.nalUnitType.isIdr
    · rw [if_pos hidr]
      exact hu.fields rfl rfl
    · rw [if_neg hidr]
      cases u.sps with
      | none => exact hu
      | some sps =>
        dsimp only
        split_ifs <;> exact hu.fields rfl rfl
  have hkeep : ∀ u, Flowing cfg u → Flowing cfg (keepPocTid0 n u) := by
    intro u hu
    refine hu.fields ?_ ?_ <;> unfold keepPocTid0 <;> split_ifs <;> rfl
  unfold H265d.hlsSliceHeader
  dsimp only
  split_ifs with hstop haddr hdep hrps
  · exact hb
  · exact ha hstop
  · exact ha hstop
  · exact hread _ (ha hstop)
  · exact hkeep _ (hread _ (ha hstop))

theorem seiRecovery (h : Flowing cfg s) (points : List (Option ℤ)) :
    Flowing cfg (seiRecovery s points) := by
  unfold H265d.seiRecovery
  induction points generalizing s with
  | nil => exact h
  | cons p points ih =>
    rw [List.foldl_cons]
    refine ih ?_
    cases p <;> exact h.fields rfl rfl

/-- A NAL unit. -/
theorem parserNalUnit {task : Bool} {n : Nal} (h : Flowing cfg s) (hc : CalmNal cfg task s n) :
    Flowing cfg (parserNalUnit cfg task s n).1 := by
  cases n with
  | slice n =>
    have hs : Flowing cfg { s with nalUnitType := n.nalUnitType } := h.fields rfl rfl
    unfold H265d.parserNalUnit
    unfold CalmNal at hc
    dsimp only at hc ⊢
    cases task with
    | false => exact hs
    | true =>
      obtain ⟨hheader, hslice⟩ := hc rfl
      have hparsed := hs.hlsSliceHeader hheader
      rw [if_pos rfl]
      generalize H265d.hlsSliceHeader n { s with nalUnitType := n.nalUnitType } = r
        at hparsed hslice ⊢
      obtain ⟨t, ok⟩ := r
      cases ok with
      | false => exact hparsed
      | true => exact hparsed.decodeSlice (hslice rfl)
  | endOfSeq t =>
    have hs : Flowing cfg { s with nalUnitType := t } := h.fields rfl rfl
    exact hs.nextSequence hc
  | sei t points =>
    have hs : Flowing cfg { s with nalUnitType := t } := h.fields rfl rfl
    exact hs.seiRecovery points
  | passive t accepted => exact h.fields rfl rfl

/-- The NAL units of a packet. -/
theorem parserNalUnits {task : Bool} {ns : List Nal} (h : Flowing cfg s)
    (hc : CalmNals cfg task ns s) : Flowing cfg (parserNalUnits cfg task ns s) := by
  induction ns generalizing s with
  | nil => exact h
  | cons n ns ih =>
    obtain ⟨hn, hns⟩ := hc
    have hunit := h.parserNalUnit hn
    rw [H265d.parserNalUnits]
    generalize H265d.parserNalUnit cfg task s n = r at hunit hns ⊢
    obtain ⟨t, ok⟩ := r
    cases ok with
    | false => exact hunit
    | true => exact ih hunit (hns rfl)

theorem h265dFlush (h : Flowing cfg s) :
    Flowing cfg (h265dFlush cfg s) ∧ (h265dFlush cfg s).Idle := by
  obtain ⟨e, he⟩ := h.live
  obtain ⟨hidle, e', he'⟩ := he.flush h.distinct
  refine ⟨⟨h.distinct.shrink (outputRel_shrinks.h265dFlush cfg s), e', ?_⟩, hidle⟩
  rw [(pictureRel_sameHistory.h265dFlush cfg s).pictures]
  exact he'

theorem outputFrame (h : Flowing cfg s) (flush : Bool) :
    Flowing cfg (outputFrame cfg flush s).1 ∧
      (cfg.fastOut → (outputFrame cfg flush s).1.Idle) := by
  obtain ⟨e, he⟩ := h.live
  obtain ⟨hidle, e', he'⟩ := he.outputFrame h.distinct flush
  refine ⟨⟨h.distinct.shrink (outputRel_shrinks.outputFrame cfg flush s), e', ?_⟩, hidle⟩
  rw [(pictureRel_sameHistory.outputFrame cfg flush s).pictures]
  exact he'

end Flowing

/-! ### Runs -/

/-- Extra data leave the frames alone. -/
theorem parserNalUnits_extra_dpb (cfg : MppDecBaseCfg) (ns : List Nal) (s : HEVCContext) :
    (parserNalUnits cfg false ns s).dpb = s.dpb := by
  induction ns generalizing s with
  | nil => rfl
  | cons n ns ih =>
    have hn : (parserNalUnit cfg false s n).1.dpb = s.dpb := by
      cases n with
      | slice n => rfl
      | endOfSeq t => rfl
      | sei t points => exact seiRecovery_dpb _ points
      | passive t accepted => rfl
    rw [parserNalUnits]
    generalize parserNalUnit cfg false s n = r at hn ⊢
    obtain ⟨t, ok⟩ := r
    cases ok with
    | false => exact hn
    | true => exact (ih t).trans hn

variable {s : HEVCContext} {cfg : MppDecBaseCfg}

/-- When no frame waits, all of them can be released. -/
theorem quiet_flushDpb (h : s.Idle) : Quiet s (flushDpb s) where
  frames i := by
    have hframe : (flushDpb s).dpb i = unrefFrame (s.dpb i) .all := rfl
    rw [hframe]
    by_cases hs : (s.dpb i).slotIndex = none
    · rw [unrefFrame_of_none hs]
      exact .inl (.refl _)
    · rw [unrefFrame_release hs (by simp [FrameFlags.without, FrameFlags.all])]
      exact .inr ⟨h i, rfl, rfl⟩
  slots := rfl
  madeUp := rfl
  display := rfl
  shown := rfl
  era := rfl
  seqDecode := rfl
  seqOutput := rfl
  ref := rfl

/-- An error of the hardware is noted. -/
theorem quiet_h265dCallback (cfg : MppDecBaseCfg) (slot : ℕ) (s : HEVCContext) :
    Quiet s (h265dCallback cfg slot s) := by
  unfold h265dCallback
  by_cases herr : cfg.disableError
  · rw [if_pos herr]
    exact .of_eq rfl
  · rw [if_neg herr]
    refine ⟨fun i => .inl ?_, rfl, rfl, rfl, rfl, rfl, rfl, rfl, rfl⟩
    dsimp only
    split_ifs
    · exact ⟨rfl, rfl, rfl, rfl⟩
    · exact .refl _

/-- Between two operations nothing waits when frames are output at once. -/
def AtRest (cfg : MppDecBaseCfg) (s : HEVCContext) : Prop :=
  Flowing cfg s ∧ (cfg.fastOut → s.Idle)

theorem atRest_init (cfg : MppDecBaseCfg) : AtRest cfg {} where
  left := {
    distinct := fun i j hi => by cases hi
    live := ⟨0, {
      taken := fun i n hn => by cases hn
      own := fun i j n hn => by cases hn
      idle := fun _ _ => rfl
      picture := fun i n hn => by cases hn
      bornTaken := fun n m hn => by cases hn
      missing := fun n hn => by cases hn
      epochs := (Epochs.start 0).congr (by
        refine (Set.eq_empty_iff_forall_notMem.2 ?_).symm
        rintro n ⟨i, hn, -⟩
        cases hn)
      first := fun p hp => by cases hp
      logged := rfl
      decode := rfl
      reached := le_refl 0
      inOrder := fun _ => ⟨rfl, by decide⟩
      atOnce := fun _ i hi => by cases hi }⟩ }
  right _ _ := rfl

/-- An operation without harm keeps the output in order. -/
theorem AtRest.apply {o : Op} (h : AtRest cfg s)
    (hc : o.Calm cfg s) : AtRest cfg (o.apply cfg s) := by
  obtain ⟨hflow, hidle⟩ := h
  cases o with
  | parse nals eos =>
    obtain ⟨e, he⟩ := hflow.live
    have hstart : Flowing cfg { s with ref := none } :=
      ⟨hflow.distinct.shrink (.of_dpb rfl), e, he.withRef hidle none⟩
    have hparsed := hstart.parserNalUnits hc
    show AtRest cfg (finishPacket cfg eos (parserNalUnits cfg true nals { s with ref := none }))
    generalize parserNalUnits cfg true nals { s with ref := none } = t at hparsed ⊢
    unfold finishPacket
    dsimp only
    have hend : Flowing cfg (if eos then h265dFlush cfg t else t) := by
      split_ifs
      · exact hparsed.h265dFlush.1
      · exact hparsed
    generalize (if eos then h265dFlush cfg t else t) = u at hend ⊢
    have hend : Flowing cfg { u with isDecoded := false } := hend.fields rfl rfl
    exact hend.outputFrame false
  | extraData nals =>
    refine ⟨hflow.parserNalUnits hc, fun hfast i => ?_⟩
    have hdpb := parserNalUnits_extra_dpb cfg nals s
    show ((parserNalUnits cfg false nals s).dpb i).flags.output = false
    rw [hdpb]
    exact hidle hfast i
  | flush => exact ⟨hflow.h265dFlush.1, fun _ => hflow.h265dFlush.2⟩
  | reset =>
    obtain ⟨hf, hi⟩ := hflow.h265dFlush
    show AtRest cfg (h265dReset cfg s)
    unfold h265dReset
    generalize h265dFlush cfg s = t at hf hi ⊢
    have hq := quiet_flushDpb hi
    have hall : Flowing cfg (flushDpb t) := hf.quiet hq (.unrefAll t .all) rfl
    exact ⟨hall.fields rfl rfl, fun _ => hq.idle hi⟩
  | callback slot =>
    have hq := quiet_h265dCallback cfg slot s
    refine ⟨hflow.quiet hq (shrinks_h265dCallback cfg slot s) ?_, fun hfast => hq.idle (hidle hfast)⟩
    show (h265dCallback cfg slot s).pictures = s.pictures
    unfold h265dCallback
    split_ifs <;> rfl

/-- What holds of the output holds of what is promised about it. -/
theorem Flowing.delivered (h : Flowing cfg s) :
    Delivered cfg s := by
  obtain ⟨e, he⟩ := h.live
  obtain ⟨hidle, e', he'⟩ := he.flush h.distinct
  have hsplit := he.epochs.split
  exact {
    once := he.epochs.nodup
    onlyPictures := fun n hn => (hsplit n).2 (.inl hn)
    notMadeUp := fun n hn hshown => (he.missing n hn).2 ((hsplit n).2 (.inl hshown))
    shownOrWaits := fun n hn => by
      constructor
      · exact fun hc => ((hsplit n).1 hn).resolve_left hc
      · exact fun hdue hc => he.epochs.apart n hc hdue
    flushed := fun n hn => by
      obtain ⟨⟨k, m⟩, hmem, rfl⟩ := List.mem_map.1 hn
      refine he'.epochs.all_shown ?_ hmem
      refine Set.eq_empty_iff_forall_notMem.2 ?_
      rintro b ⟨i, -, hi⟩
      rw [hidle i] at hi
      cases hi
    sequences := he.epochs.sorted
    sequencesWait := fun a ha b hb n m hn hm =>
      (he.epochs.past a n hn ha).trans (he.epochs.ahead b m hm hb)
    first := he.first
    logged := he.logged }

/-- In a run whose operations are calm, every picture is shown once, and in order. -/
theorem packets_delivered
    (hs : ((packets cfg).guarded fun s o _ => o.Calm cfg s).Reachable s) : Delivered cfg s := by
  have hrest : AtRest cfg s := by
    refine Machine.Reachable.invariant (P := AtRest cfg) ?_ ?_ hs
    · rintro _ rfl
      exact atRest_init cfg
    · rintro s o _ - h ⟨rfl, hc⟩
      exact h.apply hc
  exact hrest.1.delivered

/-- A picture without a missing reference begins without harm. -/
theorem calmStart_of
    (h : (placePicture cfg s).all fun t => decide (t.poc < intMax) && !t.missRefFlag) :
    CalmStart cfg s := fun _ t ht => by
  rw [ht, Option.all_some, Bool.and_eq_true, decide_eq_true_eq, Bool.not_eq_true'] at h
  refine ⟨h.1, fun hflush => absurd (.inr ?_) hflush.1⟩
  rw [h.2]
  exact Bool.false_ne_true

/-- An IDR picture and one that refers to it. -/
theorem twoPictures_delivered :
    Delivered {} (h265dParse {} [.slice (trailSlice 1 [-1])] false
      (h265dParse {} [.slice idrSlice] false {})) := by
  refine packets_delivered (.step (a := .parse [.slice (trailSlice 1 [-1])] false)
    (.step (a := .parse [.slice idrSlice] false) (.init rfl) ⟨rfl, ?_⟩) ⟨rfl, ?_⟩)
  · refine ⟨fun _ => ⟨⟨fun _ => .inr (.inr fun _ => rfl), fun _ _ => .inr (.inl (by decide))⟩,
      fun _ _ _ => calmStart_of (by decide)⟩, fun _ => trivial⟩
  · refine ⟨fun _ => ⟨⟨fun hc => (by cases hc), fun hc => (by cases hc)⟩,
      fun _ _ _ => calmStart_of (by decide +kernel)⟩, fun _ => trivial⟩

/-- The decoder gets to where any operations take it. -/
theorem reachable_ops (cfg : MppDecBaseCfg) (ops : List Op) :
    (packets cfg).Reachable (ops.foldl (Op.apply cfg) {}) := by
  induction ops using List.reverseRecOn with
  | nil => exact .init rfl
  | append_singleton ops o ih =>
    rw [List.foldl_append]
    exact .step ih rfl

/-- An SPS that lets two pictures wait. -/
def reorderSps : HEVCSPS := { spsId := 0, log2MaxPocLsb := 4, numReorderPics := 2 }

/-- An IDR picture and a BLA picture that misses a reference; then the decoder is reset. -/
def blaStream : List Op :=
  [.parse [.slice { nalUnitType := .idrWRadl, newSps := some reorderSps }] false,
    .parse [.slice { trailSlice 0 [-1] with nalUnitType := .blaWRadl }] false, .reset]

/-- Both pictures have the order count 0. The BLA picture takes the frame of the IDR picture
    for its own, whose turn is then over. -/
theorem bla_loses_picture :
    ∃ s, (packets {}).Reachable s ∧ (0 ∈ s.pictures.map Prod.fst) ∧ 0 ∉ s.display ∧ s.Idle ∧
      ¬ Delivered {} s := by
  have hreach := reachable_ops {} blaStream
  have hpicture : 0 ∈ (blaStream.foldl (Op.apply {}) {}).pictures.map Prod.fst := by
    decide +kernel
  have hshown : (blaStream.foldl (Op.apply {}) {}).display = [2] := by decide +kernel
  have hidle : ∀ i, ((blaStream.foldl (Op.apply {}) {}).dpb i).flags.output = false := by
    decide +kernel
  generalize blaStream.foldl (Op.apply {}) {} = s at hreach hpicture hshown hidle
  have hlost : 0 ∉ s.display := by
    rw [hshown]
    decide
  refine ⟨s, hreach, hpicture, hlost, hidle, fun hd => ?_⟩
  obtain ⟨i, -, hi⟩ := (hd.shownOrWaits 0 hpicture).1 hlost
  rw [hidle i] at hi
  cases hi

end Libmpp.H265d
