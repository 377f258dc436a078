import Libmpp.Avs2d.Dpb
import Libmpp.Lib.Machine
import Libmpp.Lib.SlotArray
import Libmpp.Lib.Tenants

/-!
# The slots that the frames hold

`Holds` is the invariant of the frame buffer: `usedSize` counts the frames that hold a slot,
each slot that was taken is held by one frame or was released once, and `sceneRef` points to
no frame in use but one of a scene picture. Every part of a call keeps it, but for one: a
picture must find a frame that is not in use (`Holds.alloc`).

A picture does not find one when the buffer is full, or when its field is paired with a frame
in use. And `sceneRef` is left pointing to a frame that was removed, when its mark is taken
away and no new scene picture comes in. `Call.Fits` says that none of this happens, and then
the books are right (`dpb_sound`).
-/

namespace Libmpp.Avs2d

open Function List Option

/-- The slot that each frame holds. -/
def Avs2dFrameMgr.slotOf (m : Avs2dFrameMgr) (i : Fin maxDpbSize) : Option ℕ := (m.dpb i).slotIdx

/-- The slots are accounted for. What `sceneRef` points to matters when `tracked` holds only. -/
structure Holds (tracked : Prop) (m : Avs2dFrameMgr) : Prop where
  tenants : Tenants m.slots m.released m.slotOf
  used : m.usedSize = (held m.slotOf).length
  codecUse : ∀ s, s ∈ m.codecUse ↔ s ∈ held m.slotOf
  blank : ∀ i, (m.dpb i).slotIdx = none → m.dpb i = {}
  scene : tracked → ∀ i ∈ m.sceneRef, (m.dpb i).slotIdx ≠ none → (m.dpb i).pictureType.isScene
  overwritten : m.overwritten = []
  bound : ∀ i, (m.dpb i).poi < intMax
  wraps : 0 ≤ m.trWrapCnt

/-- A frame with the same slot and picture. -/
structure SameFrame (p p' : Avs2dFrame) : Prop where
  slotIdx : p'.slotIdx = p.slotIdx
  pictureType : p'.pictureType = p.pictureType
  blank : p = {} → p' = {}
  poi : p'.poi ≤ p.poi

theorem SameFrame.refl (p : Avs2dFrame) : SameFrame p p := ⟨rfl, rfl, id, le_rfl⟩

theorem SameFrame.of_used {p p' : Avs2dFrame} (hused : p.slotIdx ≠ none)
    (hslot : p'.slotIdx = p.slotIdx) (htype : p'.pictureType = p.pictureType)
    (hpoi : p'.poi ≤ p.poi) : SameFrame p p' where
  poi := hpoi
  slotIdx := hslot
  pictureType := htype
  blank hp := absurd (congrArg Avs2dFrame.slotIdx hp) hused

/-- The frames hold the slots they held, and nothing else that `Holds` is about changes. -/
structure SameHeld (m m' : Avs2dFrameMgr) : Prop where
  slots : m'.slots = m.slots
  released : m'.released = m.released
  usedSize : m'.usedSize = m.usedSize
  codecUse : m'.codecUse = m.codecUse
  sceneRef : m'.sceneRef = m.sceneRef
  overwritten : m'.overwritten = m.overwritten
  frame : ∀ i, SameFrame (m.dpb i) (m'.dpb i)
  wraps : m.trWrapCnt ≤ m'.trWrapCnt

section Steps

variable {tracked : Prop} {m m' : Avs2dFrameMgr} {i : Fin maxDpbSize}

theorem Holds.congr (h : Holds tracked m) (hsame : SameHeld m m') : Holds tracked m' := by
  have hslotOf : m'.slotOf = m.slotOf := funext fun i => (hsame.frame i).slotIdx
  exact {
    tenants := by
      rw [hsame.slots, hsame.released, hslotOf]
      exact h.tenants
    used := by
      rw [hsame.usedSize, hslotOf]
      exact h.used
    codecUse := by
      rw [hsame.codecUse, hslotOf]
      exact h.codecUse
    blank := fun i hi => (hsame.frame i).blank (h.blank i ((hsame.frame i).slotIdx ▸ hi))
    scene := fun ht i hi hused => by
      rw [(hsame.frame i).pictureType]
      rw [hsame.sceneRef] at hi
      rw [(hsame.frame i).slotIdx] at hused
      exact h.scene ht i hi hused
    overwritten := hsame.overwritten.trans h.overwritten
    bound := fun i => (hsame.frame i).poi.trans_lt (h.bound i)
    wraps := h.wraps.trans hsame.wraps }

theorem setFrame_same (m : Avs2dFrameMgr) (i : Fin maxDpbSize) (p : Avs2dFrame) :
    (m.setFrame i p).dpb i = p := update_self ..

theorem setFrame_of_ne {p : Avs2dFrame} {j : Fin maxDpbSize} (h : j ≠ i) :
    (m.setFrame i p).dpb j = m.dpb j := update_of_ne h ..

theorem shown_same (m : Avs2dFrameMgr) (i : Fin maxDpbSize) (slot : ℕ) :
    (m.shown i slot).dpb i = { m.dpb i with isOutput := true } := setFrame_same ..

theorem shown_of_ne {j : Fin maxDpbSize} {slot : ℕ} (h : j ≠ i) :
    (m.shown i slot).dpb j = m.dpb j := setFrame_of_ne h

theorem removed_same (m : Avs2dFrameMgr) (i : Fin maxDpbSize) : (dpbRemoveFrame m i).dpb i = {} :=
  setFrame_same ..

theorem removed_of_ne {j : Fin maxDpbSize} (h : j ≠ i) : (dpbRemoveFrame m i).dpb j = m.dpb j :=
  setFrame_of_ne h

theorem alloc_of_ne {j : Fin maxDpbSize} {ph : Avs2dPicHeader} {doi poi : ℤ} {rps : Avs2dRps}
    (h : j ≠ i) : (dpbAllocFrame m i ph doi poi rps).dpb j = m.dpb j := setFrame_of_ne h

theorem slotOf_setFrame (m : Avs2dFrameMgr) (i : Fin maxDpbSize) (p : Avs2dFrame) :
    (m.setFrame i p).slotOf = update m.slotOf i p.slotIdx := by
  funext j
  rcases eq_or_ne j i with rfl | hj
  · rw [Avs2dFrameMgr.slotOf, setFrame_same, update_self]
  · rw [Avs2dFrameMgr.slotOf, setFrame_of_ne hj, update_of_ne hj, Avs2dFrameMgr.slotOf]

/-- A frame gets other marks. -/
theorem sameHeld_setFrame {p : Avs2dFrame} (h : SameFrame (m.dpb i) p) :
    SameHeld m (m.setFrame i p) where
  slots := rfl
  released := rfl
  usedSize := rfl
  codecUse := rfl
  sceneRef := rfl
  overwritten := rfl
  wraps := le_rfl
  frame j := by
    rcases eq_or_ne j i with rfl | hj
    · rw [setFrame_same]
      exact h
    · rw [setFrame_of_ne hj]
      exact .refl _

/-- All frames get other marks. -/
theorem sameHeld_map {g : Avs2dFrame → Avs2dFrame} (h : ∀ p, SameFrame p (g p)) :
    SameHeld m { m with dpb := fun i => g (m.dpb i) } where
  slots := rfl
  released := rfl
  usedSize := rfl
  codecUse := rfl
  sceneRef := rfl
  overwritten := rfl
  wraps := le_rfl
  frame _ := h _

/-- A frame in use is removed. -/
theorem Holds.remove (h : Holds tracked m) (hi : (m.dpb i).slotIdx ≠ none) :
    Holds tracked (dpbRemoveFrame m i) := by
  obtain ⟨slot, hslot⟩ := ne_none_iff_exists'.1 hi
  have hslotOf : (dpbRemoveFrame m i).slotOf = update m.slotOf i none :=
    slotOf_setFrame m i {}
  have hperm := held_update_none (f := m.slotOf) hslot
  have hnodup := hperm.nodup_iff.1 (nodup_append.1 h.tenants.nodup).2.1
  exact {
    tenants := by
      rw [hslotOf, dpbRemoveFrame, hslot]
      exact h.tenants.release hslot
    used := by
      have hlen := hperm.length_eq
      rw [length_cons] at hlen
      show m.usedSize - 1 = _
      rw [hslotOf, h.used]
      omega
    codecUse := fun s => by
      rw [hslotOf, dpbRemoveFrame, hslot]
      simp only [toList_some, toFinset_cons, toFinset_nil, insert_empty_eq,
        Finset.mem_sdiff, Finset.mem_singleton, h.codecUse, hperm.mem_iff, mem_cons]
      constructor
      · rintro ⟨hs | hs, hne⟩
        · exact absurd hs hne
        · exact hs
      · intro hs
        refine ⟨.inr hs, ?_⟩
        rintro rfl
        exact (nodup_cons.1 hnodup).1 hs
    blank := fun j hj => by
      rcases eq_or_ne j i with rfl | hne
      · exact setFrame_same ..
      · rw [removed_of_ne hne] at hj ⊢
        exact h.blank j hj
    scene := fun ht j hj hused => by
      rcases eq_or_ne j i with rfl | hne
      · exact absurd (congrArg Avs2dFrame.slotIdx (setFrame_same m j {})) hused
      · rw [removed_of_ne hne] at hused ⊢
        exact h.scene ht j hj hused
    overwritten := h.overwritten
    bound := fun j => by
      rcases eq_or_ne j i with rfl | hne
      · exact (congrArg Avs2dFrame.poi (setFrame_same m j {})).trans_lt (by decide)
      · rw [removed_of_ne hne]
        exact h.bound j
    wraps := h.wraps }

/-- A picture gets a frame that was not in use. -/
theorem Holds.alloc (h : Holds tracked m) (hi : (m.dpb i).slotIdx = none)
    (hscene : tracked → m.sceneRef ≠ some i) (ph : Avs2dPicHeader) (doi : ℤ) {poi : ℤ} (hpoi : poi < intMax) (rps : Avs2dRps) :
    Holds tracked { dpbAllocFrame m i ph doi poi rps with
      curFrm := some i
      codecUse := m.codecUse ∪ {m.slots} } := by
  have hslotOf : (dpbAllocFrame m i ph doi poi rps).slotOf =
      update m.slotOf i (some m.slots) :=
    slotOf_setFrame ..
  have hperm := held_update_some (f := m.slotOf) hi m.slots
  rw [← hslotOf] at hperm
  exact {
    tenants := by
      show Tenants (m.slots + 1) m.released (dpbAllocFrame m i ph doi poi rps).slotOf
      rw [hslotOf]
      exact h.tenants.take hi
    used := by
      refine Eq.trans ?_ hperm.length_eq.symm
      rw [length_cons, ← h.used]
      rfl
    codecUse := fun s => by
      refine Iff.trans ?_ hperm.mem_iff.symm
      dsimp only
      rw [Finset.mem_union, Finset.mem_singleton, h.codecUse, mem_cons, or_comm]
    blank := fun j hj => by
      rcases eq_or_ne j i with rfl | hne
      · exact absurd hj (by simp [dpbAllocFrame, Avs2dFrameMgr.setFrame])
      · have hunused := (congrArg Avs2dFrame.slotIdx (alloc_of_ne hne)).symm.trans hj
        exact (alloc_of_ne hne).trans (h.blank j hunused)
    scene := fun ht j hj hused => by
      have hne : j ≠ i := by
        rintro rfl
        exact hscene ht hj
      dsimp only at hused ⊢
      rw [alloc_of_ne hne] at hused ⊢
      exact h.scene ht j hj hused
    overwritten := (if_pos hi).trans h.overwritten
    bound := fun j => by
      rcases eq_or_ne j i with rfl | hne
      · exact (congrArg Avs2dFrame.poi (setFrame_same m j _)).trans_lt hpoi
      · exact (congrArg Avs2dFrame.poi (alloc_of_ne hne)).trans_lt (h.bound j)
    wraps := h.wraps }

end Steps

/-! ## The parts of a call -/

section Parts

variable {tracked : Prop} {m : Avs2dFrameMgr}

theorem Holds.unmarkDiscontinuous (h : Holds tracked m) (doi : ℤ) :
    Holds tracked (unmarkDiscontinuous m doi) := by
  rw [Avs2d.unmarkDiscontinuous]
  split_ifs with hdoi
  · refine h.congr (sameHeld_map fun p => ?_)
    rw [unmarkDistant]
    split_ifs with hp
    · exact .of_used hp.1 rfl rfl le_rfl
    · exact .refl p
  · exact h

theorem Holds.recomputeCycleOrderIndex (h : Holds tracked m) (doi : ℤ)
    (hdoi : doi < 256 + m.trWrapCnt * doiCycle) :
    Holds tracked (recomputeCycleOrderIndex m doi).1 ∧
      (recomputeCycleOrderIndex m doi).2 < intMax - 2 * doiCycle := by
  rw [Avs2d.recomputeCycleOrderIndex]
  by_cases hlt : doi < intMax - 2 * doiCycle
  · rw [if_pos hlt]
    exact ⟨h, hlt⟩
  · rw [if_neg hlt]
    -- there was a cycle before
    dsimp only [doiCycle, intMax] at hdoi hlt ⊢
    have hwrap : 0 ≤ (m.trWrapCnt - 1) * 256 := by omega
    refine ⟨h.congr ⟨rfl, rfl, rfl, rfl, rfl, rfl, fun i => ?_, le_rfl⟩, by omega⟩
    dsimp only
    rw [wrapFrame]
    split_ifs with hp
    · exact .refl _
    · exact .of_used hp rfl rfl (sub_le_self _ hwrap)

theorem poiOf_lt {vsh : Avs2dSeqHeader} {ph : Avs2dPicHeader} {doi : ℤ}
    (hdoi : doi < intMax - 2 * doiCycle) : poiOf vsh ph doi < intMax := by
  rw [poiOf]
  dsimp only [doiCycle, intMax] at hdoi ⊢
  split_ifs <;> omega

theorem Holds.computeFrameOrderIndex (h : Holds tracked m) (vsh : Avs2dSeqHeader)
    (ph : Avs2dPicHeader) : Holds tracked (computeFrameOrderIndex m vsh ph).1 ∧
      (computeFrameOrderIndex m vsh ph).2.2 < intMax := by
  rw [Avs2d.computeFrameOrderIndex]
  dsimp only
  have hcount : Holds tracked
      (updateDoi (Avs2d.unmarkDiscontinuous m (ph.doi : ℕ)) (ph.doi : ℕ)) := by
    refine (h.unmarkDiscontinuous _).congr ⟨rfl, rfl, rfl, rfl, rfl, rfl, fun _ => .refl _, ?_⟩
    rw [updateDoi]
    dsimp only
    split_ifs <;> omega
  generalize updateDoi (Avs2d.unmarkDiscontinuous m (ph.doi : ℕ)) (ph.doi : ℕ) = n at hcount ⊢
  obtain ⟨hwrap, hdoi⟩ :=
    hcount.recomputeCycleOrderIndex ((ph.doi : ℕ) + n.trWrapCnt * doiCycle) (by omega)
  refine ⟨?_, poiOf_lt hdoi⟩
  rw [startOutput]
  split_ifs
  · exact hwrap.congr ⟨rfl, rfl, rfl, rfl, rfl, rfl, fun _ => .refl _, le_rfl⟩
  · exact hwrap

/-- The frame at `i` is the next to be output. -/
structure Next (m : Avs2dFrameMgr) (continuous : Bool) (i : Fin maxDpbSize) (slot : ℕ) : Prop where
  slotIdx : (m.dpb i).slotIdx = some slot
  visible : (m.dpb i).invisible = false
  waits : (m.dpb i).isOutput = false
  bound : (m.dpb i).poi < intMax
  least : ∀ j, isOutputableFrame (m.dpb j) → (m.dpb i).poi ≤ (m.dpb j).poi
  due : (m.dpb i).poi - m.outputPoi ≤ 1 ∨ overdue m i ∨ continuous = false

theorem isOutputableFrame_iff {p : Avs2dFrame} : isOutputableFrame p ↔
    (∃ slot, p.slotIdx = some slot) ∧ p.invisible = false ∧ p.isOutput = false := by
  simp [isOutputableFrame, ne_none_iff_exists', and_assoc]

theorem getOutputableSmallestPoi_spec (m : Avs2dFrameMgr) :
    (getOutputableSmallestPoi m = none ∧
        ∀ j, isOutputableFrame (m.dpb j) → intMax ≤ (m.dpb j).poi) ∨
      ∃ i, getOutputableSmallestPoi m = some i ∧ isOutputableFrame (m.dpb i) ∧
        (m.dpb i).poi < intMax ∧
        ∀ j, isOutputableFrame (m.dpb j) → (m.dpb i).poi ≤ (m.dpb j).poi := by
  rcases foldl_min_spec (fun i => isOutputableFrame (m.dpb i)) (fun i => (m.dpb i).poi)
    (List.finRange maxDpbSize) none intMax with ⟨hr, hle⟩ | ⟨i, -, hr, hi, hlt, hle⟩
  · exact .inl ⟨congrArg Prod.fst hr, fun j => hle j (mem_finRange j)⟩
  · exact .inr ⟨i, congrArg Prod.fst hr, hi, hlt, fun j => hle j (mem_finRange j)⟩

/-- What `dpb_output_next_frame` does: nothing, or it outputs the next frame, and removes it
    unless it is referred to. -/
theorem dpbOutputNextFrame_cases (m : Avs2dFrameMgr) (continuous : Bool) :
    (dpbOutputNextFrame m continuous = none ∧
      (continuous = false → ∀ j, isOutputableFrame (m.dpb j) → intMax ≤ (m.dpb j).poi)) ∨
    ∃ i slot, Next m continuous i slot ∧ dpbOutputNextFrame m continuous =
      some (if isRefered (m.dpb i) then m.shown i slot else dpbRemoveFrame (m.shown i slot) i) := by
  rcases getOutputableSmallestPoi_spec m with ⟨hnone, hle⟩ | ⟨i, hsome, hi, hlt, hle⟩
  · refine .inl ⟨?_, fun _ => hle⟩
    rw [dpbOutputNextFrame, hnone]
  · obtain ⟨⟨slot, hslot⟩, hvisible, hwaits⟩ := isOutputableFrame_iff.1 hi
    by_cases hdue : (m.dpb i).poi - m.outputPoi ≤ 1 ∨ overdue m i ∨ !continuous
    · refine .inr ⟨i, slot, ⟨hslot, hvisible, hwaits, hlt, hle, by simpa using hdue⟩, ?_⟩
      have hshown : outputDisplayFrame m i = some (m.shown i slot) := by
        rw [outputDisplayFrame, hslot, hvisible, hwaits]
        rfl
      have hrefered : isRefered ((m.shown i slot).dpb i) = isRefered (m.dpb i) := by
        rw [Avs2dFrameMgr.shown, setFrame_same, isRefered, isRefered]
      rw [dpbOutputNextFrame, hsome]
      dsimp only
      rw [if_pos hdue, hshown, map_some, hrefered]
      cases isRefered (m.dpb i) <;> rfl
    · refine .inl ⟨?_, fun hc => absurd (.inr (.inr (by rw [hc]; rfl))) hdue⟩
      rw [dpbOutputNextFrame, hsome]
      exact if_neg hdue

theorem dpbOutputNextFrame_some {c : Bool} {m' : Avs2dFrameMgr}
    (h : dpbOutputNextFrame m c = some m') : ∃ i slot, Next m c i slot ∧
      m' = if isRefered (m.dpb i) then m.shown i slot else dpbRemoveFrame (m.shown i slot) i := by
  rcases dpbOutputNextFrame_cases m c with ⟨hnone, -⟩ | ⟨i, slot, hnext, hsome⟩
  · cases hnone.symm.trans h
  · exact ⟨i, slot, hnext, some.inj (h.symm.trans hsome)⟩

theorem Next.sameHeld {c : Bool} {i : Fin maxDpbSize} {slot : ℕ} (h : Next m c i slot) :
    SameHeld m (m.shown i slot) := by
  have hused : (m.dpb i).slotIdx ≠ none := by
    rw [h.slotIdx]
    exact some_ne_none _
  have hframe := (sameHeld_setFrame (m := m) (i := i)
    (p := { m.dpb i with isOutput := true }) (.of_used hused rfl rfl le_rfl)).frame
  exact ⟨rfl, rfl, rfl, rfl, rfl, rfl, hframe, le_rfl⟩

theorem Holds.output (h : Holds tracked m) {c : Bool} {m' : Avs2dFrameMgr}
    (hm' : dpbOutputNextFrame m c = some m') : Holds tracked m' := by
  obtain ⟨i, slot, hnext, rfl⟩ := dpbOutputNextFrame_some hm'
  have hshown := h.congr hnext.sameHeld
  split_ifs
  · exact hshown
  · refine hshown.remove ?_
    rw [(hnext.sameHeld.frame i).slotIdx, hnext.slotIdx]
    exact some_ne_none _

theorem Holds.removeSceneFrame (h : Holds tracked m) (t : Avs2dPicType) :
    Holds tracked (dpbRemoveSceneFrame m t) := by
  rw [dpbRemoveSceneFrame]
  split_ifs
  · rcases hscene : m.sceneRef with _ | i
    · exact h
    · have hmark : Holds tracked (m.setFrame i { m.dpb i with referedByScene := false }) := by
        refine h.congr (sameHeld_setFrame ⟨rfl, rfl, fun hi => ?_, le_rfl⟩)
        rw [hi]
      have hclear : ∀ {m : Avs2dFrameMgr}, Holds tracked m →
          Holds tracked { m with sceneRef := none } :=
        fun h => { h with scene := fun _ _ hi => by cases hi }
      dsimp only
      split_ifs with hgb
      · refine hclear (hmark.remove fun hunused => ?_)
        rw [hmark.blank i hunused] at hgb
        cases hgb
      · exact hclear hmark
  · exact h

theorem sameFrame_unmarkFar {p : Avs2dFrame} (hp : p.slotIdx ≠ none) (poi : ℤ) :
    SameFrame p (unmarkFar poi p) := by
  rw [unmarkFar]
  split_ifs
  · exact .of_used hp rfl rfl le_rfl
  · exact .refl _

theorem Holds.removeUnusedStep (h : Holds tracked m) (poi : ℤ) (i : Fin maxDpbSize) :
    Holds tracked (removeUnusedStep poi m i) := by
  rw [Avs2d.removeUnusedStep]
  by_cases hi : (m.dpb i).slotIdx = none
  · rw [if_pos hi]
    exact h
  · rw [if_neg hi]
    have hframe := sameFrame_unmarkFar hi poi
    generalize unmarkFar poi (m.dpb i) = p at hframe ⊢
    have hmark := h.congr (sameHeld_setFrame hframe)
    dsimp only
    split_ifs
    · refine hmark.remove ?_
      rw [setFrame_same, hframe.slotIdx]
      exact hi
    · exact hmark

theorem Holds.removeUnusedFrame (h : Holds tracked m) (poi : ℤ) :
    Holds tracked (dpbRemoveUnusedFrame m poi) := by
  rw [dpbRemoveUnusedFrame]
  induction List.finRange maxDpbSize generalizing m with
  | nil => exact h
  | cons i l ih => exact ih (h.removeUnusedStep poi i)

theorem Holds.makeRoom (h : Holds tracked m) (t : Avs2dPicType) (poi : ℤ) :
    Holds tracked (dpbMakeRoom m t poi) := by
  rw [dpbMakeRoom]
  have hout : Holds tracked ((dpbOutputNextFrame m true).getD m) := by
    cases hm' : dpbOutputNextFrame m true with
    | none => exact h
    | some m' => exact h.output hm'
  exact (hout.removeSceneFrame t).removeUnusedFrame poi

theorem SameHeld.refl (m : Avs2dFrameMgr) : SameHeld m m :=
  ⟨rfl, rfl, rfl, rfl, rfl, rfl, fun _ => .refl _, le_rfl⟩

theorem SameHeld.trans {m₁ m₂ m₃ : Avs2dFrameMgr} (h : SameHeld m₁ m₂) (h' : SameHeld m₂ m₃) :
    SameHeld m₁ m₃ where
  slots := h'.slots.trans h.slots
  released := h'.released.trans h.released
  usedSize := h'.usedSize.trans h.usedSize
  codecUse := h'.codecUse.trans h.codecUse
  sceneRef := h'.sceneRef.trans h.sceneRef
  overwritten := h'.overwritten.trans h.overwritten
  frame i := ⟨(h'.frame i).slotIdx.trans (h.frame i).slotIdx,
    (h'.frame i).pictureType.trans (h.frame i).pictureType,
    fun hi => (h'.frame i).blank ((h.frame i).blank hi), (h'.frame i).poi.trans (h.frame i).poi⟩
  wraps := h.wraps.trans h'.wraps

theorem slotIdx_findRefFrame {doi : ℤ} {i : Fin maxDpbSize} (hi : findRefFrame m doi = some i) :
    (m.dpb i).slotIdx ≠ none := by
  have h := find?_some hi
  simp only [decide_eq_true_eq] at h
  exact h.1

/-- The slots of the references are marked already. -/
theorem Holds.setFrameRefs (h : Holds tracked m) (cur : Fin maxDpbSize) (rps : Avs2dRps) :
    dpbSetFrameRefs m cur rps = m := by
  have hstep : ∀ delta : ℕ, setRefStep cur m delta = m := fun delta => by
    rw [setRefStep]
    rcases hi : findRefFrame m ((m.dpb cur).doi - delta) with _ | i
    · rfl
    · obtain ⟨slot, hslot⟩ := ne_none_iff_exists'.1 (slotIdx_findRefFrame hi)
      have hmem : slot ∈ m.codecUse := (h.codecUse slot).2 (mem_held.2 ⟨i, hslot⟩)
      have hsame : m.codecUse ∪ (m.dpb i).slotIdx.toList.toFinset = m.codecUse := by
        rw [hslot, Finset.union_eq_left]
        simpa using hmem
      dsimp only
      rw [hsame]
  rw [dpbSetFrameRefs]
  induction rps.refPic with
  | nil => rfl
  | cons delta l ih => rw [foldl_cons, hstep, ih]

/-- What `dpb_update_refs` does to the references of other pictures. -/
theorem sameHeld_removeRef (m : Avs2dFrameMgr) (cur : Fin maxDpbSize) (l : List ℕ) :
    SameHeld m (l.foldl (removeRefStep cur) m) := by
  induction l generalizing m with
  | nil => exact .refl m
  | cons delta l ih =>
    refine SameHeld.trans ?_ (ih _)
    rw [removeRefStep]
    rcases hi : findRefFrame m ((m.dpb cur).doi - delta) with _ | i
    · exact .refl m
    · exact sameHeld_setFrame (.of_used (slotIdx_findRefFrame hi) rfl rfl le_rfl)

end Parts

/-! ## A picture -/

/-- A picture with the output order index `poi` finds a frame that is not in use. -/
structure FindsFrame (m : Avs2dFrameMgr) (vsh : Avs2dSeqHeader) (poi : ℤ) : Prop where
  unused : ∃ i, (m.dpb i).slotIdx = none
  unpaired : vsh.fieldCodedSequence → ∀ i, (m.dpb i).slotIdx ≠ none → (m.dpb i).poi ≠ poi

/-- The scene picture is in the buffer. -/
def SceneKept (m : Avs2dFrameMgr) : Prop := ∀ i ∈ m.sceneRef, (m.dpb i).slotIdx ≠ none

section Insert

variable {tracked : Prop} {m : Avs2dFrameMgr}

theorem FindsFrame.slotIdx {vsh : Avs2dSeqHeader} {poi : ℤ} (h : FindsFrame m vsh poi) :
    (m.dpb (dpbGetOneFrame m vsh poi)).slotIdx = none := by
  obtain ⟨i, hi⟩ := h.unused
  have hpaired : (if vsh.fieldCodedSequence then (List.finRange maxDpbSize).find? fun i =>
      (m.dpb i).slotIdx ≠ none ∧ (m.dpb i).poi = poi else none) = none := by
    split_ifs with hfield
    · refine find?_eq_none.2 fun j _ => ?_
      simpa using h.unpaired hfield j
    · rfl
  obtain ⟨j, hj⟩ : ∃ j,
      ((List.finRange maxDpbSize).find? fun i => (m.dpb i).slotIdx = none) = some j :=
    isSome_iff_exists.1 (find?_isSome.2 ⟨i, mem_finRange i, by simpa using hi⟩)
  rw [dpbGetOneFrame, hpaired, hj]
  simpa using find?_some hj

/-- The references are updated, and a scene picture is the new one to refer to. -/
theorem Holds.updateRefs (h : Holds tracked m) (hkept : tracked → SceneKept m) (rps : Avs2dRps)
    (hcur : ∀ i ∈ m.curFrm, (m.dpb i).slotIdx ≠ none ∧
      ((m.dpb i).referedByScene → (m.dpb i).pictureType.isScene)) :
    Holds tracked (dpbUpdateRefs m rps) ∧ (tracked → SceneKept (dpbUpdateRefs m rps)) := by
  rw [dpbUpdateRefs]
  rcases hcurFrm : m.curFrm with _ | cur
  · exact ⟨h, hkept⟩
  · obtain ⟨hused, hscene⟩ := hcur cur hcurFrm
    have hmark : Holds tracked (updateSceneRef m cur) ∧
        (tracked → SceneKept (updateSceneRef m cur)) := by
      rw [updateSceneRef]
      split_ifs with href
      · refine ⟨{ h with scene := fun _ i hi _ => ?_ }, fun _ i hi => ?_⟩
        · obtain rfl := some.inj hi
          exact hscene href
        · obtain rfl := some.inj hi
          exact hused
      · exact ⟨h, hkept⟩
    have hsame := sameHeld_removeRef (updateSceneRef m cur) cur rps.removePic
    refine ⟨hmark.1.congr hsame, fun ht i hi => ?_⟩
    dsimp only at hi ⊢
    rw [hsame.sceneRef] at hi
    rw [(hsame.frame i).slotIdx]
    exact hmark.2 ht i hi

/-- The buffer when a picture looks for a frame. -/
def Avs2dFrameMgr.room (m : Avs2dFrameMgr) (vsh : Avs2dSeqHeader) (ph : Avs2dPicHeader) :
    Avs2dFrameMgr :=
  dpbMakeRoom (computeFrameOrderIndex m vsh ph).1 ph.pictureType
    (computeFrameOrderIndex m vsh ph).2.2

/-- A picture that finds a frame keeps the books right. -/
theorem Holds.insert (h : Holds tracked m) {vsh : Avs2dSeqHeader} {ph : Avs2dPicHeader}
    (rps : Avs2dRps)
    (hfind : FindsFrame (m.room vsh ph) vsh (Avs2d.computeFrameOrderIndex m vsh ph).2.2)
    (hkept : tracked → SceneKept (m.room vsh ph)) :
    Holds tracked (avs2dDpbInsert m vsh ph rps) ∧
      (tracked → SceneKept (avs2dDpbInsert m vsh ph rps)) := by
  obtain ⟨hr, hpoi⟩ := h.computeFrameOrderIndex vsh ph
  have hroom : Holds tracked (m.room vsh ph) := hr.makeRoom _ _
  rw [avs2dDpbInsert, ← Avs2dFrameMgr.room]
  generalize m.room vsh ph = n at hroom hfind hkept ⊢
  generalize Avs2d.computeFrameOrderIndex m vsh ph = r at hpoi hfind ⊢
  have hfree := hfind.slotIdx
  generalize dpbGetOneFrame n vsh r.2.2 = cur at hfree ⊢
  have hscene : tracked → n.sceneRef ≠ some cur := fun ht hs => hkept ht cur hs hfree
  have halloc := hroom.alloc hfree hscene ph r.2.1 hpoi rps
  have hcur : (dpbAllocFrame n cur ph r.2.1 r.2.2 rps).dpb cur = _ := setFrame_same ..
  have hslot : ((dpbAllocFrame n cur ph r.2.1 r.2.2 rps).dpb cur).slotIdx.toList.toFinset =
      {n.slots} := by
    rw [hcur]
    rfl
  have hcodec : (dpbAllocFrame n cur ph r.2.1 r.2.2 rps).codecUse = n.codecUse := rfl
  rw [hslot, hcodec, halloc.setFrameRefs]
  refine halloc.updateRefs (fun ht i hi => ?_) rps fun i hi => ?_
  · have hne : i ≠ cur := by
      rintro rfl
      exact hscene ht hi
    have hsame : (dpbAllocFrame n cur ph r.2.1 r.2.2 rps).dpb i = n.dpb i := setFrame_of_ne hne
    dsimp only
    rw [hsame]
    exact hkept ht i hi
  · obtain rfl := some.inj hi
    dsimp only
    rw [hcur]
    exact ⟨some_ne_none _, id⟩

end Insert

/-! ## Emptying the buffer -/

section Flush

variable {tracked : Prop} {m : Avs2dFrameMgr}

/-- What `dpb_remove_unused_frame` does to a frame. -/
def keepUsed (poi : ℤ) (p : Avs2dFrame) : Avs2dFrame :=
  if p.slotIdx = none then p
  else
    let p := unmarkFar poi p
    if (p.isOutput || p.invisible) && !isRefered p then {} else p

theorem removeUnusedStep_self (poi : ℤ) (m : Avs2dFrameMgr) (i : Fin maxDpbSize) :
    (removeUnusedStep poi m i).dpb i = keepUsed poi (m.dpb i) := by
  rw [removeUnusedStep, keepUsed]
  dsimp only
  split_ifs
  · rfl
  · exact setFrame_same ..
  · exact setFrame_same ..

theorem dpbRemoveUnusedFrame_dpb (m : Avs2dFrameMgr) (poi : ℤ) (i : Fin maxDpbSize) :
    (dpbRemoveUnusedFrame m poi).dpb i = keepUsed poi (m.dpb i) := by
  have h := @foldl_local _ _ _ _ Avs2dFrameMgr.dpb (removeUnusedStep poi) (keepUsed poi)
    (fun m i => removeUnusedStep_self poi m i) (fun m i j hj => ?_) _
    (nodup_finRange maxDpbSize) m i
  · rw [if_pos (mem_finRange i)] at h
    exact h
  · rw [removeUnusedStep]
    split_ifs
    · rfl
    · dsimp only
      split_ifs
      · exact (setFrame_of_ne hj).trans (setFrame_of_ne hj)
      · exact setFrame_of_ne hj

/-- Every frame in use waits for output, and nothing refers to it. -/
def OnlyWaiting (m : Avs2dFrameMgr) : Prop :=
  ∀ i, (m.dpb i).slotIdx ≠ none → isOutputableFrame (m.dpb i) ∧ isRefered (m.dpb i) = false

theorem Holds.unmarkAll (h : Holds tracked m) : Holds tracked (unmarkAll m) := by
  refine h.congr ⟨rfl, rfl, rfl, rfl, rfl, rfl, fun i => ?_, le_rfl⟩
  rw [Avs2d.unmarkAll]
  dsimp only
  split_ifs with hi
  · exact .of_used hi rfl rfl le_rfl
  · exact .refl _

theorem onlyWaiting_removeUnused (m : Avs2dFrameMgr) (poi : ℤ) :
    OnlyWaiting (dpbRemoveUnusedFrame (unmarkAll m) poi) := by
  intro i
  rw [dpbRemoveUnusedFrame_dpb, unmarkAll]
  dsimp only
  by_cases hi : (m.dpb i).slotIdx = none
  · rw [if_neg (not_not.2 hi), keepUsed, if_pos hi]
    exact fun h => absurd hi h
  · have hmarks : isRefered (unmarkFar poi (unmarkRefered (m.dpb i))) = false := by
      rw [unmarkFar]
      split_ifs <;> rfl
    have hused : (unmarkRefered (m.dpb i)).slotIdx ≠ none := hi
    rw [if_pos hi, keepUsed, if_neg hused]
    dsimp only
    generalize unmarkFar poi (unmarkRefered (m.dpb i)) = p at hmarks ⊢
    rw [hmarks]
    split_ifs with hdrop
    · exact fun h => absurd rfl h
    · intro hused
      simp only [Bool.not_false, Bool.and_true, Bool.or_eq_true, not_or, Bool.not_eq_true] at hdrop
      exact ⟨isOutputableFrame_iff.2 ⟨ne_none_iff_exists'.1 hused, hdrop.2, hdrop.1⟩, hmarks⟩

/-- A round of the loop outputs a frame and removes it. -/
theorem OnlyWaiting.output (hw : OnlyWaiting m) (h : Holds tracked m) (hused : m.usedSize ≠ 0) :
    ∃ i slot, Next m false i slot ∧
      dpbOutputNextFrame m false = some (dpbRemoveFrame (m.shown i slot) i) := by
  rcases dpbOutputNextFrame_cases m false with ⟨-, hnone⟩ | ⟨i, slot, hnext, hsome⟩
  · -- a frame is in use, so it waits, and its order index is below `INT_MAX`
    have hne : held m.slotOf ≠ [] := fun hnil => hused (by rw [h.used, hnil]; rfl)
    obtain ⟨i, hi⟩ := not_forall.1 fun hall => hne (held_eq_nil.2 hall)
    have hle := hnone rfl i (hw i hi).1
    exact absurd (h.bound i) (not_lt.2 hle)
  · have hi : (m.dpb i).slotIdx ≠ none := by
      rw [hnext.slotIdx]
      exact some_ne_none _
    rw [(hw i hi).2] at hsome
    exact ⟨i, slot, hnext, hsome⟩

theorem OnlyWaiting.remove (hw : OnlyWaiting m) (i : Fin maxDpbSize) (slot : ℕ) :
    OnlyWaiting (dpbRemoveFrame (m.shown i slot) i) := by
  intro j
  rcases eq_or_ne j i with rfl | hj
  · rw [removed_same]
    exact fun h => absurd rfl h
  · rw [removed_of_ne hj, shown_of_ne hj]
    exact hw j

/-- The loop of the flush ends when no frame is in use. -/
theorem OnlyWaiting.outputAll {fuel : ℕ} (hw : OnlyWaiting m) (h : Holds tracked m)
    (hfuel : m.usedSize ≤ fuel) :
    Holds tracked (outputAll fuel m) ∧ (Avs2d.outputAll fuel m).usedSize = 0 := by
  induction fuel generalizing m with
  | zero => exact ⟨h, Nat.le_zero.1 hfuel⟩
  | succ fuel ih =>
    rw [Avs2d.outputAll]
    by_cases hzero : m.usedSize = 0
    · rw [if_pos hzero]
      exact ⟨h, hzero⟩
    · obtain ⟨i, slot, -, hsome⟩ := hw.output h hzero
      rw [if_neg hzero, hsome]
      refine ih (hw.remove i slot) (h.output hsome) ?_
      have hless : (dpbRemoveFrame (m.shown i slot) i).usedSize = m.usedSize - 1 := rfl
      rw [hless]
      omega

theorem Holds.usedSize_le (h : Holds tracked m) : m.usedSize ≤ maxDpbSize := by
  rw [h.used]
  exact (length_filterMap_le _ _).trans_eq length_finRange

theorem Holds.unused (h : Holds tracked m) (hzero : m.usedSize = 0) (i : Fin maxDpbSize) :
    (m.dpb i).slotIdx = none :=
  held_eq_nil.1 (length_eq_zero_iff.1 (h.used.symm.trans hzero)) i

/-- A flush removes every frame. -/
theorem Holds.flush (h : Holds tracked m) (poi : ℤ) :
    Holds tracked (avs2dDpbFlush m poi) ∧ ∀ i, ((avs2dDpbFlush m poi).dpb i).slotIdx = none := by
  have hroom := h.unmarkAll.removeUnusedFrame poi
  obtain ⟨hall, hzero⟩ := (onlyWaiting_removeUnused m poi).outputAll hroom
    (hroom.usedSize_le.trans (Nat.le_succ maxDpbSize))
  have hunused := hall.unused hzero
  rw [avs2dDpbFlush]
  generalize Avs2d.outputAll (maxDpbSize + 1) (dpbRemoveUnusedFrame (Avs2d.unmarkAll m) poi) = n
    at hall hzero hunused ⊢
  refine ⟨?_, hunused⟩
  exact { hall with
    used := hzero.symm.trans hall.used
    scene := fun _ i hi => by cases hi
    wraps := le_rfl }

end Flush

/-! ## The scene picture -/

section Scene

variable {m : Avs2dFrameMgr} {i : Fin maxDpbSize} {poi : ℤ}

/-- The decoding order index of the last picture. -/
def Avs2dFrameMgr.fullDoi (m : Avs2dFrameMgr) : ℤ := m.prevDoi + m.trWrapCnt * doiCycle

/-- The decoding order index of the picture that comes next. -/
def Avs2dFrameMgr.nextDoi (m : Avs2dFrameMgr) (ph : Avs2dPicHeader) : ℤ :=
  (updateDoi m (ph.doi : ℕ)).fullDoi

/-- The frame is referred to, and its output order index is less than `AVS2_MAX_POC_DISTANCE`
    away. -/
structure Near (poi : ℤ) (p : Avs2dFrame) : Prop where
  refered : isRefered p
  distance : |p.poi - poi| < maxPocDistance

/-- The frame stays referred to when a picture comes: the picture follows the one before in
    decoding order or the frame, and the frame is near. -/
structure StaysRefered (m : Avs2dFrameMgr) (vsh : Avs2dSeqHeader) (ph : Avs2dPicHeader)
    (p : Avs2dFrame) : Prop where
  near : Near (poiOf vsh ph (m.nextDoi ph)) p
  follows : m.outputPoi = noVal ∨ (ph.doi : ℕ) = (m.prevDoi + 1).tmod doiCycle ∨
    |(ph.doi : ℕ) - p.doi.tmod doiCycle| ≤ 1

theorem poiOf_sub (vsh : Avs2dSeqHeader) (ph : Avs2dPicHeader) (doi wrapOi : ℤ) :
    poiOf vsh ph (doi - wrapOi) = poiOf vsh ph doi - wrapOi := by
  rw [poiOf, poiOf]
  split_ifs <;> omega

theorem sceneRef_compute (m : Avs2dFrameMgr) (vsh : Avs2dSeqHeader) (ph : Avs2dPicHeader) :
    (computeFrameOrderIndex m vsh ph).1.sceneRef = m.sceneRef := by
  rw [computeFrameOrderIndex, startOutput, recomputeCycleOrderIndex, updateDoi,
    unmarkDiscontinuous]
  dsimp only
  split_ifs <;> rfl

theorem StaysRefered.compute {vsh : Avs2dSeqHeader} {ph : Avs2dPicHeader}
    (h : StaysRefered m vsh ph (m.dpb i)) (hi : (m.dpb i).slotIdx ≠ none) :
    ((computeFrameOrderIndex m vsh ph).1.dpb i).slotIdx ≠ none ∧
      Near (computeFrameOrderIndex m vsh ph).2.2 ((computeFrameOrderIndex m vsh ph).1.dpb i) := by
  have hmark : (unmarkDiscontinuous m (ph.doi : ℕ)).dpb i = m.dpb i := by
    rw [unmarkDiscontinuous]
    split_ifs with hdoi
    · have hle := (h.follows.resolve_left hdoi.1).resolve_left hdoi.2
      exact if_neg fun hfar => absurd hfar.2 (not_lt.2 hle)
    · rfl
  have hsame : (unmarkDiscontinuous m (ph.doi : ℕ)).prevDoi = m.prevDoi ∧
      (unmarkDiscontinuous m (ph.doi : ℕ)).trWrapCnt = m.trWrapCnt := by
    rw [unmarkDiscontinuous]
    split_ifs <;> exact ⟨rfl, rfl⟩
  have hdoi : (ph.doi : ℕ) + (updateDoi (unmarkDiscontinuous m (ph.doi : ℕ))
      (ph.doi : ℕ)).trWrapCnt * doiCycle = m.nextDoi ph := by
    rw [Avs2dFrameMgr.nextDoi, Avs2dFrameMgr.fullDoi, updateDoi, updateDoi, hsame.1, hsame.2]
  have hstart : ∀ (n : Avs2dFrameMgr) poi, (startOutput n ph.pictureType poi).dpb = n.dpb :=
    fun n poi => by
      rw [startOutput]
      split_ifs <;> rfl
  rw [computeFrameOrderIndex, hdoi]
  dsimp only
  rw [hstart, recomputeCycleOrderIndex]
  by_cases hlt : m.nextDoi ph < intMax - 2 * doiCycle
  · rw [if_pos hlt]
    dsimp only [updateDoi]
    rw [hmark]
    exact ⟨hi, h.near⟩
  · -- the order index of the picture is wrapped as that of the frame
    rw [if_neg hlt]
    dsimp only [updateDoi]
    rw [hmark, wrapFrame, if_neg hi, poiOf_sub]
    refine ⟨hi, h.near.refered, ?_⟩
    dsimp only
    rw [sub_sub_sub_cancel_right]
    exact h.near.distance

theorem sceneRef_output {c : Bool} {m' : Avs2dFrameMgr} (hm' : dpbOutputNextFrame m c = some m') :
    m'.sceneRef = m.sceneRef := by
  obtain ⟨j, slot, -, rfl⟩ := dpbOutputNextFrame_some hm'
  split_ifs <;> rfl

/-- A frame that is referred to stays when a frame is output. -/
theorem Near.output {c : Bool} {m' : Avs2dFrameMgr} (hi : (m.dpb i).slotIdx ≠ none)
    (h : Near poi (m.dpb i)) (hm' : dpbOutputNextFrame m c = some m') :
    (m'.dpb i).slotIdx ≠ none ∧ Near poi (m'.dpb i) := by
  obtain ⟨j, slot, -, rfl⟩ := dpbOutputNextFrame_some hm'
  rcases eq_or_ne i j with rfl | hij
  · rw [if_pos h.refered, shown_same]
    exact ⟨hi, h.refered, h.distance⟩
  · split_ifs
    · rw [shown_of_ne hij]
      exact ⟨hi, h⟩
    · rw [removed_of_ne hij, shown_of_ne hij]
      exact ⟨hi, h⟩

theorem sceneRef_removeUnusedFrame (m : Avs2dFrameMgr) (poi : ℤ) :
    (dpbRemoveUnusedFrame m poi).sceneRef = m.sceneRef := by
  rw [dpbRemoveUnusedFrame]
  induction List.finRange maxDpbSize generalizing m with
  | nil => rfl
  | cons i l ih =>
    refine (ih _).trans ?_
    rw [removeUnusedStep]
    dsimp only
    split_ifs <;> rfl

/-- A frame that waits, or that is near, is not removed. -/
theorem slotIdx_removeUnusedFrame (hi : (m.dpb i).slotIdx ≠ none)
    (h : (m.dpb i).isOutput ∨ (m.dpb i).invisible → Near poi (m.dpb i)) :
    ((dpbRemoveUnusedFrame m poi).dpb i).slotIdx ≠ none := by
  have hslot : (unmarkFar poi (m.dpb i)).slotIdx ≠ none :=
    fun hnone => hi ((sameFrame_unmarkFar hi poi).slotIdx.symm.trans hnone)
  rw [dpbRemoveUnusedFrame_dpb, keepUsed, if_neg hi]
  dsimp only
  split_ifs with hdrop
  · rw [Bool.and_eq_true, Bool.or_eq_true, unmarkFar] at hdrop
    have hmarks : (m.dpb i).isOutput ∨ (m.dpb i).invisible := by
      split_ifs at hdrop <;> exact hdrop.1
    obtain ⟨hrefered, hnear⟩ := h hmarks
    rw [if_neg (not_le.2 hnear), hrefered] at hdrop
    exact absurd hdrop.2 (by decide)
  · exact hslot

/-- The scene picture stays in the buffer, unless a new one comes. -/
theorem SceneKept.room (hkept : SceneKept m) {vsh : Avs2dSeqHeader} {ph : Avs2dPicHeader}
    (h : ph.pictureType.isScene = false → ∀ i ∈ m.sceneRef, StaysRefered m vsh ph (m.dpb i)) :
    SceneKept (m.room vsh ph) := by
  intro i hi
  rw [Avs2dFrameMgr.room, dpbMakeRoom] at hi ⊢
  rw [sceneRef_removeUnusedFrame, dpbRemoveSceneFrame] at hi
  rw [dpbRemoveSceneFrame]
  cases hscene : ph.pictureType.isScene with
  | true =>
    rw [hscene, if_pos rfl] at hi
    split at hi
    next hnone => exact absurd (hnone.symm.trans hi) nofun
    next => cases hi
  | false =>
    rw [hscene, if_neg Bool.false_ne_true] at hi
    rw [if_neg Bool.false_ne_true]
    have hsame := sceneRef_compute m vsh ph
    have hall : ∀ j ∈ m.sceneRef, _ := fun j hj => (h hscene j hj).compute (hkept j hj)
    generalize computeFrameOrderIndex m vsh ph = r at hsame hall hi ⊢
    cases hm' : dpbOutputNextFrame r.1 true with
    | none =>
      rw [hm', Option.getD_none, hsame] at hi
      obtain ⟨hused, hnear⟩ := hall i hi
      exact slotIdx_removeUnusedFrame hused fun _ => hnear
    | some m' =>
      rw [hm', Option.getD_some, sceneRef_output hm', hsame] at hi
      obtain ⟨hused, hnear⟩ := (hall i hi).2.output (hall i hi).1 hm'
      exact slotIdx_removeUnusedFrame hused fun _ => hnear

end Scene

/-! ## Runs -/

/-- The call does no harm: a picture finds a frame that is not in use, and the scene picture
    stays referred to, unless a new one comes in or the buffer is emptied. -/
def Call.Fits (m : Avs2dFrameMgr) : Call → Prop
  | .insert vsh ph _ =>
    FindsFrame (m.room vsh ph) vsh (computeFrameOrderIndex m vsh ph).2.2 ∧
      (ph.pictureType.isScene = false → ∀ i ∈ m.sceneRef, StaysRefered m vsh ph (m.dpb i))
  | .dpbFlush _ => True
  | .flush poi => ∀ i ∈ m.sceneRef,
      (m.dpb i).isOutput ∨ (m.dpb i).invisible → Near poi (m.dpb i)

/-- The calls of the parser, from the buffer as it is created. -/
def calls : Machine Avs2dFrameMgr Call where
  init m := m = {}
  step m c m' := m' = call m c

/-- What is promised of the buffer: the frames that hold a slot are counted, a frame that was
    overwritten did not wait and was not referred to, `sceneRef` points to a scene picture in
    use, and each slot that was taken is held by one frame and marked, or was released once. -/
structure Sound (m : Avs2dFrameMgr) : Prop where
  used : m.usedSize = (held m.slotOf).length
  overwritten : ∀ p ∈ m.overwritten, isOutputableFrame p = false ∧ isRefered p = false
  scene : ∀ i ∈ m.sceneRef, (m.dpb i).slotIdx ≠ none ∧ (m.dpb i).pictureType.isScene
  released : (m.released ++ held m.slotOf).Perm (List.range m.slots)
  codecUse : ∀ s, s ∈ m.codecUse ↔ s ∈ held m.slotOf
  flushed : ∀ poi, (avs2dDpbFlush m poi).released.Perm (List.range (avs2dDpbFlush m poi).slots)

theorem holds_init {tracked : Prop} : Holds tracked {} where
  tenants := .start
  used := rfl
  codecUse _ := by simp [mem_held, Avs2dFrameMgr.slotOf]
  blank _ _ := rfl
  scene _ _ hi := by cases hi
  overwritten := rfl
  bound _ := show noVal < intMax by decide
  wraps := le_rfl

/-- In a run whose calls do no harm, the buffer is as promised. -/
theorem dpb_sound {m : Avs2dFrameMgr} (hm : (calls.guarded fun m c _ => c.Fits m).Reachable m) :
    Sound m := by
  have hholds : Holds True m ∧ SceneKept m := by
    refine Machine.Reachable.invariant (P := fun m => Holds True m ∧ SceneKept m) ?_ ?_ hm
    · rintro _ rfl
      exact ⟨holds_init, fun i hi => by cases hi⟩
    · rintro m c _ - ⟨h, hkept⟩ ⟨rfl, hfits⟩
      cases c with
      | insert vsh ph rps =>
        obtain ⟨h', hkept'⟩ := h.insert rps hfits.1 fun _ => hkept.room hfits.2
        exact ⟨h', hkept' trivial⟩
      | dpbFlush poi => exact ⟨(h.flush poi).1, fun i hi => by cases hi⟩
      | flush poi =>
        refine ⟨h.removeUnusedFrame poi, fun i hi => ?_⟩
        have hi' : i ∈ m.sceneRef := (sceneRef_removeUnusedFrame m poi).symm.trans hi
        exact slotIdx_removeUnusedFrame (hkept i hi') (hfits i hi')
  obtain ⟨h, hkept⟩ := hholds
  exact {
    used := h.used
    overwritten := fun p hp => by
      rw [h.overwritten] at hp
      cases hp
    scene := fun i hi => ⟨hkept i hi, h.scene trivial i hi (hkept i hi)⟩
    released := h.tenants
    codecUse := h.codecUse
    flushed := fun poi => (h.flush poi).1.tenants.done (h.flush poi).2 }

/-- A scene picture and one after it. -/
theorem dpb_sound_scene : Sound
    (call (call {} (.insert ⟨false, 0, false⟩ ⟨.g, 0, 0⟩ { referedByOthers := true }))
      (.insert ⟨false, 0, false⟩ ⟨.p, 1, 0⟩ { refPic := [1] })) := by
  refine dpb_sound (.step (a := .insert _ _ _) (.step (a := .insert _ _ _) (.init rfl) ⟨rfl, ?_⟩)
    ⟨rfl, ?_⟩)
  · exact ⟨⟨⟨0, by decide⟩, fun h => by cases h⟩, fun h => by cases h⟩
  · refine ⟨⟨⟨1, by decide⟩, fun h => by cases h⟩, fun _ i hi => ?_⟩
    obtain rfl : (0 : Fin maxDpbSize) = i := some.inj hi
    exact ⟨⟨by decide, by decide⟩, .inr (.inl (by decide))⟩

/-- The second field of a picture that others refer to gets a slot of its own, and the slot of
    the first is lost. -/
theorem dpb_not_sound : ¬ ∀ m, calls.Reachable m → Sound m := by
  intro hall
  have hsound := hall
    (call (call {} (.insert ⟨false, 0, true⟩ ⟨.i, 0, 1⟩ { referedByOthers := true }))
      (.insert ⟨false, 0, true⟩ ⟨.p, 1, 0⟩ {}))
    (.step (a := .insert _ _ _) (.step (a := .insert _ _ _) (.init rfl) rfl) rfl)
  have hused := hsound.used
  revert hused
  decide +kernel

end Libmpp.Avs2d
