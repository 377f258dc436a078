import Libmpp.Avs2d.Held
import Libmpp.Lib.InOrder

/-!
# What is displayed

The visible pictures, all but those of type `GB_PICTURE`, go to the display queue. `Shown` says
that each of them was displayed once or its frame waits for output, and that nothing else was
displayed; every part of a call keeps it, provided that a picture finds a frame. A flush
outputs all frames that wait.
-/

namespace Libmpp.Avs2d

open scoped List

/-- A picture on its way to the display: its slot and its output order index, by which the
    pictures are ordered. -/
structure Shot where
  slot : ℕ
  poi : ℤ
deriving DecidableEq

instance : LT Shot := ⟨fun a b => a.poi < b.poi⟩

/-- The visible pictures of a history. -/
def visible (l : List (ℕ × Avs2dPicType × ℤ)) : List Shot :=
  (l.filter fun x => x.2.1 ≠ .gb).map fun x => ⟨x.1, x.2.2⟩

/-- The slots of the frames that wait for output. -/
def Avs2dFrameMgr.dueSlot (m : Avs2dFrameMgr) (i : Fin maxDpbSize) : Option ℕ :=
  if isOutputableFrame (m.dpb i) then (m.dpb i).slotIdx else none

/-- Every visible picture was displayed once or waits, and no other was displayed. The pictures
    of `past` came before, and so did what was displayed then. -/
structure Shown (past m : Avs2dFrameMgr) : Prop where
  pictures : past.pictures <+: m.pictures
  display : past.display <+: m.display
  taken : m.pictures.map Prod.fst = List.range m.slots
  gb : ∀ i, (m.dpb i).slotIdx ≠ none →
    (m.dpb i).invisible = decide ((m.dpb i).pictureType = .gb)
  once : (m.display ++ held m.dueSlot).Perm ((visible m.pictures).map Shot.slot)

/-- For the display the frames are the same. -/
structure SameView (p p' : Avs2dFrame) : Prop where
  slotIdx : p'.slotIdx = p.slotIdx
  invisible : p'.invisible = p.invisible
  isOutput : p'.isOutput = p.isOutput
  pictureType : p'.pictureType = p.pictureType

/-- The frames are the same but for what refers to them. -/
structure SameShot (p p' : Avs2dFrame) : Prop extends SameView p p' where
  doi : p'.doi = p.doi
  poi : p'.poi = p.poi
  outDelay : p'.outDelay = p.outDelay

/-- A step that matters to no frame that waits, but for its order. -/
structure Quiet (m m' : Avs2dFrameMgr) : Prop where
  slots : m'.slots = m.slots
  display : m'.display = m.display
  pictures : m'.pictures = m.pictures
  frame : ∀ i, SameView (m.dpb i) (m'.dpb i) ∨
    isOutputableFrame (m.dpb i) = false ∧ (m'.dpb i).slotIdx = none

/-- A step that matters to no frame that waits, nor to the order. -/
structure Still (m m' : Avs2dFrameMgr) : Prop where
  slots : m'.slots = m.slots
  display : m'.display = m.display
  pictures : m'.pictures = m.pictures
  curFrm : m'.curFrm = m.curFrm
  prevDoi : m'.prevDoi = m.prevDoi
  trWrapCnt : m'.trWrapCnt = m.trWrapCnt
  outputPoi : m'.outputPoi = m.outputPoi
  frame : ∀ i, SameShot (m.dpb i) (m'.dpb i) ∨
    isOutputableFrame (m.dpb i) = false ∧ (m'.dpb i).slotIdx = none ∧ (m'.dpb i).doi = noVal

theorem SameView.refl (p : Avs2dFrame) : SameView p p := ⟨rfl, rfl, rfl, rfl⟩

theorem SameShot.refl (p : Avs2dFrame) : SameShot p p := ⟨.refl p, rfl, rfl, rfl⟩

theorem SameView.outputable {p p' : Avs2dFrame} (h : SameView p p') :
    isOutputableFrame p' = isOutputableFrame p := by
  rw [isOutputableFrame, isOutputableFrame, h.slotIdx, h.invisible, h.isOutput]

theorem isOutputableFrame_of_unused {p : Avs2dFrame} (h : p.slotIdx = none) :
    isOutputableFrame p = false := by
  rw [isOutputableFrame, h]
  rfl

section Quiet

variable {past m m' m'' : Avs2dFrameMgr}

theorem Quiet.refl (m : Avs2dFrameMgr) : Quiet m m := ⟨rfl, rfl, rfl, fun _ => .inl (.refl _)⟩

theorem Still.refl (m : Avs2dFrameMgr) : Still m m :=
  ⟨rfl, rfl, rfl, rfl, rfl, rfl, rfl, fun _ => .inl (.refl _)⟩

theorem Still.trans (h : Still m m') (h' : Still m' m'') : Still m m'' where
  slots := h'.slots.trans h.slots
  display := h'.display.trans h.display
  pictures := h'.pictures.trans h.pictures
  curFrm := h'.curFrm.trans h.curFrm
  prevDoi := h'.prevDoi.trans h.prevDoi
  trWrapCnt := h'.trWrapCnt.trans h.trWrapCnt
  outputPoi := h'.outputPoi.trans h.outputPoi
  frame i := by
    rcases h.frame i with hs | ⟨hp, hnone, hdoi⟩
    · rcases h'.frame i with hs' | ⟨hp', hnone', hdoi'⟩
      · exact .inl {
          slotIdx := hs'.slotIdx.trans hs.slotIdx
          invisible := hs'.invisible.trans hs.invisible
          isOutput := hs'.isOutput.trans hs.isOutput
          pictureType := hs'.pictureType.trans hs.pictureType
          doi := hs'.doi.trans hs.doi
          poi := hs'.poi.trans hs.poi
          outDelay := hs'.outDelay.trans hs.outDelay }
      · exact .inr ⟨hs.outputable ▸ hp', hnone', hdoi'⟩
    · refine .inr ⟨hp, ?_⟩
      rcases h'.frame i with hs' | ⟨-, hdrop⟩
      · exact ⟨hs'.slotIdx.trans hnone, hs'.doi.trans hdoi⟩
      · exact hdrop

theorem Still.quiet (h : Still m m') : Quiet m m' :=
  ⟨h.slots, h.display, h.pictures, fun i =>
    (h.frame i).imp SameShot.toSameView fun hdrop => ⟨hdrop.1, hdrop.2.1⟩⟩

theorem Quiet.dueSlot (h : Quiet m m') : m'.dueSlot = m.dueSlot := by
  funext i
  rw [Avs2dFrameMgr.dueSlot, Avs2dFrameMgr.dueSlot]
  rcases h.frame i with hs | ⟨hp, hnone⟩
  · rw [hs.outputable, hs.slotIdx]
  · rw [hp, isOutputableFrame_of_unused hnone]
    rfl

theorem Shown.quiet (h : Shown past m) (hq : Quiet m m') : Shown past m' where
  pictures := hq.pictures ▸ h.pictures
  display := hq.display ▸ h.display
  taken := by
    rw [hq.pictures, hq.slots]
    exact h.taken
  gb i hi := by
    rcases hq.frame i with hs | ⟨-, hnone⟩
    · rw [hs.invisible, hs.pictureType]
      exact h.gb i (hs.slotIdx ▸ hi)
    · exact absurd hnone hi
  once := by
    rw [hq.display, hq.dueSlot, hq.pictures]
    exact h.once

/-- A frame is referred to no longer. -/
theorem still_setFrame {i : Fin maxDpbSize} {p : Avs2dFrame} (h : SameShot (m.dpb i) p) :
    Still m (m.setFrame i p) := by
  refine ⟨rfl, rfl, rfl, rfl, rfl, rfl, rfl, fun j => .inl ?_⟩
  rcases eq_or_ne j i with rfl | hj
  · rw [setFrame_same]
    exact h
  · rw [setFrame_of_ne hj]
    exact .refl _

/-- A frame that does not wait is removed. -/
theorem still_remove {i : Fin maxDpbSize} (h : isOutputableFrame (m.dpb i) = false) :
    Still m (dpbRemoveFrame m i) := by
  refine ⟨rfl, rfl, rfl, rfl, rfl, rfl, rfl, fun j => ?_⟩
  rcases eq_or_ne j i with rfl | hj
  · rw [removed_same]
    exact .inr ⟨h, rfl, rfl⟩
  · have hsame : (dpbRemoveFrame m i).dpb j = m.dpb j := setFrame_of_ne hj
    rw [hsame]
    exact .inl (.refl _)

end Quiet

/-! ## The parts of a call -/

section Parts

variable {past m : Avs2dFrameMgr}

theorem still_unmarkDiscontinuous (m : Avs2dFrameMgr) (doi : ℤ) :
    Still m (unmarkDiscontinuous m doi) := by
  rw [unmarkDiscontinuous]
  split_ifs
  · refine ⟨rfl, rfl, rfl, rfl, rfl, rfl, rfl, fun i => .inl ?_⟩
    dsimp only
    rw [unmarkDistant]
    split_ifs
    · exact ⟨⟨rfl, rfl, rfl, rfl⟩, rfl, rfl, rfl⟩
    · exact .refl _
  · exact .refl m

theorem quiet_recomputeCycleOrderIndex (m : Avs2dFrameMgr) (doi : ℤ) :
    Quiet m (recomputeCycleOrderIndex m doi).1 := by
  rw [recomputeCycleOrderIndex]
  by_cases hlt : doi < intMax - 2 * doiCycle
  · rw [if_pos hlt]
    exact .refl m
  · rw [if_neg hlt]
    refine ⟨rfl, rfl, rfl, fun i => .inl ?_⟩
    dsimp only
    rw [wrapFrame]
    split_ifs
    · exact .refl _
    · exact ⟨rfl, rfl, rfl, rfl⟩

theorem Shown.computeFrameOrderIndex (hs : Shown past m) (vsh : Avs2dSeqHeader)
    (ph : Avs2dPicHeader) : Shown past (computeFrameOrderIndex m vsh ph).1 := by
  have hmark := hs.quiet (still_unmarkDiscontinuous m (ph.doi : ℕ)).quiet
  have hcount : Shown past (updateDoi (unmarkDiscontinuous m (ph.doi : ℕ)) (ph.doi : ℕ)) :=
    hmark.quiet ⟨rfl, rfl, rfl, fun _ => .inl (.refl _)⟩
  rw [Avs2d.computeFrameOrderIndex]
  dsimp only
  generalize updateDoi (unmarkDiscontinuous m (ph.doi : ℕ)) (ph.doi : ℕ) = n at hcount ⊢
  have hwrap := hcount.quiet
    (quiet_recomputeCycleOrderIndex n ((ph.doi : ℕ) + n.trWrapCnt * doiCycle))
  rw [startOutput]
  split_ifs
  · exact hwrap.quiet ⟨rfl, rfl, rfl, fun _ => .inl (.refl _)⟩
  · exact hwrap

theorem still_removeSceneFrame (hs : Shown past m) (t : Avs2dPicType) :
    Still m (dpbRemoveSceneFrame m t) := by
  rw [dpbRemoveSceneFrame]
  split_ifs
  · rcases m.sceneRef with _ | i
    · exact .refl m
    · have hmark : Still m (m.setFrame i { m.dpb i with referedByScene := false }) :=
        still_setFrame ⟨⟨rfl, rfl, rfl, rfl⟩, rfl, rfl, rfl⟩
      have hclear : ∀ {m' : Avs2dFrameMgr}, Still m m' → Still m { m' with sceneRef := none } :=
        fun h => { h with }
      dsimp only
      split_ifs with hgb
      · refine hclear (hmark.trans (still_remove ?_))
        rw [setFrame_same] at hgb ⊢
        by_cases hi : (m.dpb i).slotIdx = none
        · exact isOutputableFrame_of_unused hi
        · -- the frame is invisible
          have hinv := hs.gb i hi
          rw [show (m.dpb i).pictureType = .gb from hgb] at hinv
          simp [isOutputableFrame, hinv]
      · exact hclear hmark
  · exact .refl m

theorem sameShot_unmarkFar (poi : ℤ) (p : Avs2dFrame) : SameShot p (unmarkFar poi p) := by
  rw [unmarkFar]
  split_ifs
  · exact ⟨⟨rfl, rfl, rfl, rfl⟩, rfl, rfl, rfl⟩
  · exact .refl p

theorem still_removeUnusedStep (m : Avs2dFrameMgr) (poi : ℤ) (i : Fin maxDpbSize) :
    Still m (removeUnusedStep poi m i) := by
  rw [removeUnusedStep]
  by_cases hi : (m.dpb i).slotIdx = none
  · rw [if_pos hi]
    exact .refl m
  · rw [if_neg hi]
    have hmark := still_setFrame (sameShot_unmarkFar poi (m.dpb i))
    dsimp only
    split_ifs with hdrop
    · refine hmark.trans (still_remove ?_)
      rw [setFrame_same]
      simp only [Bool.and_eq_true, Bool.or_eq_true] at hdrop
      rcases hdrop.1 with h | h
      · simp [isOutputableFrame, h]
      · simp [isOutputableFrame, h]
    · exact hmark

theorem still_removeUnusedFrame (m : Avs2dFrameMgr) (poi : ℤ) :
    Still m (dpbRemoveUnusedFrame m poi) := by
  rw [dpbRemoveUnusedFrame]
  induction List.finRange maxDpbSize generalizing m with
  | nil => exact .refl m
  | cons i l ih => exact (still_removeUnusedStep m poi i).trans (ih _)

theorem still_updateRefs (m : Avs2dFrameMgr) (rps : Avs2dRps) : Still m (dpbUpdateRefs m rps) := by
  have hloop : ∀ (cur : Fin maxDpbSize) (l : List ℕ) (m : Avs2dFrameMgr),
      Still m (l.foldl (removeRefStep cur) m) := fun cur l => by
    induction l with
    | nil => exact Still.refl
    | cons delta l ih =>
      refine fun m => Still.trans ?_ (ih _)
      rw [removeRefStep]
      rcases findRefFrame m ((m.dpb cur).doi - delta) with _ | i
      · exact .refl m
      · exact still_setFrame ⟨⟨rfl, rfl, rfl, rfl⟩, rfl, rfl, rfl⟩
  rw [dpbUpdateRefs]
  rcases m.curFrm with _ | cur
  · exact .refl m
  · refine Still.trans ?_ (hloop cur _ _)
    rw [updateSceneRef]
    split_ifs
    · exact ⟨rfl, rfl, rfl, rfl, rfl, rfl, rfl, fun _ => .inl (.refl _)⟩
    · exact .refl m

theorem still_unmarkAll (m : Avs2dFrameMgr) : Still m (unmarkAll m) := by
  refine ⟨rfl, rfl, rfl, rfl, rfl, rfl, rfl, fun i => .inl ?_⟩
  rw [unmarkAll]
  dsimp only
  split_ifs
  · exact ⟨⟨rfl, rfl, rfl, rfl⟩, rfl, rfl, rfl⟩
  · exact .refl _

/-! ## Output -/

theorem Next.dueSlot {c : Bool} {i : Fin maxDpbSize} {slot : ℕ} (h : Next m c i slot) :
    m.dueSlot i = some slot := by
  rw [Avs2dFrameMgr.dueSlot, if_pos, h.slotIdx]
  exact isOutputableFrame_iff.2 ⟨⟨slot, h.slotIdx⟩, h.visible, h.waits⟩

theorem dueSlot_shown (m : Avs2dFrameMgr) (i : Fin maxDpbSize) (slot : ℕ) :
    (m.shown i slot).dueSlot = Function.update m.dueSlot i none := by
  funext j
  rcases eq_or_ne j i with rfl | hj
  · rw [Avs2dFrameMgr.dueSlot, shown_same, Function.update_self]
    simp [isOutputableFrame]
  · rw [Avs2dFrameMgr.dueSlot, shown_of_ne hj, Function.update_of_ne hj, Avs2dFrameMgr.dueSlot]

theorem Shown.show (hs : Shown past m) {c : Bool} {i : Fin maxDpbSize} {slot : ℕ}
    (hnext : Next m c i slot) : Shown past (m.shown i slot) where
  pictures := hs.pictures
  display := hs.display.trans (List.prefix_append _ _)
  taken := hs.taken
  gb j hj := by
    rcases eq_or_ne j i with rfl | hne
    · rw [shown_same] at hj ⊢
      exact hs.gb j hj
    · rw [shown_of_ne hne] at hj ⊢
      exact hs.gb j hj
  once := by
    rw [dueSlot_shown, Avs2dFrameMgr.shown, List.append_assoc, List.singleton_append]
    exact ((held_update_none hnext.dueSlot).symm.append_left _).trans hs.once

/-- A frame that was put on the display queue is removed, or it stays in the buffer. -/
theorem Shown.output (hs : Shown past m) {c : Bool} {m' : Avs2dFrameMgr}
    (hm' : dpbOutputNextFrame m c = some m') : Shown past m' := by
  obtain ⟨i, slot, hnext, rfl⟩ := dpbOutputNextFrame_some hm'
  split_ifs
  · exact hs.show hnext
  · refine (hs.show hnext).quiet (still_remove ?_).quiet
    rw [shown_same]
    simp [isOutputableFrame]

theorem Shown.room (hs : Shown past m) (vsh : Avs2dSeqHeader) (ph : Avs2dPicHeader) :
    Shown past (m.room vsh ph) := by
  rw [Avs2dFrameMgr.room, dpbMakeRoom]
  have hcount := hs.computeFrameOrderIndex vsh ph
  generalize Avs2d.computeFrameOrderIndex m vsh ph = r at hcount ⊢
  have hout : Shown past ((dpbOutputNextFrame r.1 true).getD r.1) := by
    cases hm' : dpbOutputNextFrame r.1 true with
    | none => exact hcount
    | some m' => exact hcount.output hm'
  exact (hout.quiet (still_removeSceneFrame hout _).quiet).quiet (still_removeUnusedFrame _ _).quiet

/-! ## A picture -/

theorem visible_append (a b : List (ℕ × Avs2dPicType × ℤ)) :
    visible (a ++ b) = visible a ++ visible b := by
  rw [visible, List.filter_append, List.map_append, visible, visible]

theorem visible_concat (l : List (ℕ × Avs2dPicType × ℤ)) (slot : ℕ) (t : Avs2dPicType) (poi : ℤ) :
    visible (l ++ [(slot, t, poi)]) = visible l ++ if t = .gb then [] else [⟨slot, poi⟩] := by
  rw [visible_append]
  split_ifs with ht
  · simp [visible, ht]
  · simp [visible, ht]

/-- A picture gets a frame that was not in use. -/
theorem Shown.alloc {tracked : Prop} (hs : Shown past m) (h : Holds tracked m)
    {cur : Fin maxDpbSize} (hfree : (m.dpb cur).slotIdx = none) (ph : Avs2dPicHeader) (doi poi : ℤ) (rps : Avs2dRps) :
    Shown past (dpbAllocFrame m cur ph doi poi rps) := by
  have hblank := h.blank cur hfree
  have hcur : (dpbAllocFrame m cur ph doi poi rps).dpb cur = _ := setFrame_same ..
  rw [hblank] at hcur
  have hnone : m.dueSlot cur = none := by
    rw [Avs2dFrameMgr.dueSlot, hfree, ite_self]
  have hdue : (dpbAllocFrame m cur ph doi poi rps).dueSlot =
      Function.update m.dueSlot cur (if ph.pictureType = .gb then none else some m.slots) := by
    funext j
    rcases eq_or_ne j cur with rfl | hj
    · rw [Avs2dFrameMgr.dueSlot, hcur, Function.update_self]
      by_cases ht : ph.pictureType = .gb
      · simp [isOutputableFrame, ht]
      · simp [isOutputableFrame, ht]
    · rw [Avs2dFrameMgr.dueSlot, alloc_of_ne hj, Function.update_of_ne hj, Avs2dFrameMgr.dueSlot]
  exact {
    pictures := hs.pictures.trans (List.prefix_append _ _)
    display := hs.display
    taken := by
      show (m.pictures ++ [(m.slots, ph.pictureType, poi)]).map Prod.fst = List.range (m.slots + 1)
      rw [List.map_append, hs.taken, List.range_succ]
      rfl
    gb := fun j hj => by
      rcases eq_or_ne j cur with rfl | hne
      · rw [hcur]
      · rw [alloc_of_ne hne] at hj ⊢
        exact hs.gb j hj
    once := by
      show (m.display ++ held (dpbAllocFrame m cur ph doi poi rps).dueSlot).Perm
        ((visible (m.pictures ++ [(m.slots, ph.pictureType, poi)])).map Shot.slot)
      rw [hdue, visible_concat, List.map_append]
      split_ifs with ht
      · rw [← hnone, Function.update_eq_self, List.map_nil, List.append_nil]
        exact hs.once
      · calc
          m.display ++ held (Function.update m.dueSlot cur (some m.slots)) ~
              m.display ++ (m.slots :: held m.dueSlot) :=
            (held_update_some hnone m.slots).append_left _
          _ ~ (m.display ++ held m.dueSlot) ++ [m.slots] :=
            List.perm_middle.trans (List.perm_append_singleton _ _).symm
          _ ~ (visible m.pictures).map Shot.slot ++ [m.slots] := hs.once.append_right _ }

theorem still_setFrameRefs (m : Avs2dFrameMgr) (cur : Fin maxDpbSize) (rps : Avs2dRps) :
    Still m (dpbSetFrameRefs m cur rps) := by
  rw [dpbSetFrameRefs]
  induction rps.refPic generalizing m with
  | nil => exact .refl m
  | cons delta l ih =>
    refine Still.trans ?_ (ih _)
    rw [setRefStep]
    rcases findRefFrame m ((m.dpb cur).doi - delta) with _ | i
    · exact .refl m
    · exact ⟨rfl, rfl, rfl, rfl, rfl, rfl, rfl, fun _ => .inl (.refl _)⟩

/-- A picture that finds a frame. -/
theorem Shown.insert {tracked : Prop} (hs : Shown past m) (h : Holds tracked m)
    {vsh : Avs2dSeqHeader} {ph : Avs2dPicHeader} (rps : Avs2dRps)
    (hfind : FindsFrame (m.room vsh ph) vsh (Avs2d.computeFrameOrderIndex m vsh ph).2.2) :
    Shown past (avs2dDpbInsert m vsh ph rps) := by
  have hroom := hs.room vsh ph
  have hholds : Holds tracked (m.room vsh ph) := (h.computeFrameOrderIndex vsh ph).1.makeRoom _ _
  rw [avs2dDpbInsert, ← Avs2dFrameMgr.room]
  generalize m.room vsh ph = n at hroom hholds hfind ⊢
  generalize Avs2d.computeFrameOrderIndex m vsh ph = r at hfind ⊢
  have hfree := hfind.slotIdx
  generalize dpbGetOneFrame n vsh r.2.2 = cur at hfree ⊢
  have halloc := hroom.alloc hholds hfree ph r.2.1 r.2.2 rps
  generalize dpbAllocFrame n cur ph r.2.1 r.2.2 rps = a at halloc ⊢
  have hcur : Quiet a { a with
      curFrm := some cur
      codecUse := a.codecUse ∪ (a.dpb cur).slotIdx.toList.toFinset } :=
    ⟨rfl, rfl, rfl, fun _ => .inl (.refl _)⟩
  exact ((halloc.quiet hcur).quiet (still_setFrameRefs _ cur rps).quiet).quiet
    (still_updateRefs _ rps).quiet

/-! ## A flush -/

theorem Shown.outputAll (hs : Shown past m) (fuel : ℕ) : Shown past (outputAll fuel m) := by
  induction fuel generalizing m with
  | zero => exact hs
  | succ fuel ih =>
    rw [Avs2d.outputAll]
    split_ifs
    · exact hs
    · cases hm' : dpbOutputNextFrame m false with
      | none => exact hs
      | some m' => exact ih (hs.output hm')

theorem Shown.self (hs : Shown past m) : Shown m m :=
  { hs with pictures := List.prefix_rfl, display := List.prefix_rfl }

theorem Shown.flush (hs : Shown past m) (poi : ℤ) : Shown past (avs2dDpbFlush m poi) := by
  have hroom := (hs.quiet (still_unmarkAll m).quiet).quiet (still_removeUnusedFrame _ poi).quiet
  rw [avs2dDpbFlush]
  exact (hroom.outputAll _).quiet ⟨rfl, rfl, rfl, fun _ => .inl (.refl _)⟩

/-- When no frame is in use, every visible picture was displayed. -/
theorem Shown.all (hs : Shown past m) (hunused : ∀ i, (m.dpb i).slotIdx = none) :
    m.display.Perm ((visible m.pictures).map Shot.slot) := by
  have hnil : held m.dueSlot = [] := held_eq_nil.2 fun i => by
    rw [Avs2dFrameMgr.dueSlot, hunused i, ite_self]
  have honce := hs.once
  rwa [hnil, List.append_nil] at honce

end Parts

end Libmpp.Avs2d
