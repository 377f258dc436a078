import Libmpp.Avs2d.Display

/-!
# The display order

A sequence of pictures is decoded from an empty buffer and ended by a flush. Each of its
visible pictures is displayed once (`DisplaysAll`). The next frame to be output is the one with
the smallest output order index, and it comes before all pictures that are still to come:

* when its index is at most one more than that of the frame displayed before, since the
  indices are distinct;
* when it is overdue, since a picture to come has an index of at least its decoding order
  index less the delay that the sequence header declares.

The first frame is the exception: a picture of type I takes its own index for that of a frame
displayed before, so a frame may go out although pictures with a smaller index are to come.
`Leads` says when it is not, and then the display order is that of the indices
(`sequence_displayed`).
-/

namespace Libmpp.Avs2d

open scoped List

/-- The frames that wait for output, with their order indices. -/
def Avs2dFrameMgr.due (m : Avs2dFrameMgr) (i : Fin maxDpbSize) : Option Shot :=
  if isOutputableFrame (m.dpb i) then (m.dpb i).slotIdx.map fun slot => ⟨slot, (m.dpb i).poi⟩
  else none

/-- The delay by which a picture may be output before it is decoded. -/
def Avs2dSeqHeader.delay (vsh : Avs2dSeqHeader) : ℤ :=
  if vsh.lowDelay then 0 else (vsh.pictureReorderDelay : ℕ)

/-! ## The order indices -/

section Indices

variable {m : Avs2dFrameMgr} {vsh : Avs2dSeqHeader} {ph : Avs2dPicHeader}

theorem sub_delay_le_poiOf (vsh : Avs2dSeqHeader) (ph : Avs2dPicHeader) (doi : ℤ) :
    doi - vsh.delay ≤ poiOf vsh ph doi := by
  rw [Avs2dSeqHeader.delay, poiOf]
  split_ifs <;> omega

theorem poiOf_add_delay_le (vsh : Avs2dSeqHeader) (ph : Avs2dPicHeader) (doi : ℤ) :
    poiOf vsh ph doi + vsh.delay ≤ doi + (ph.pictureOutputDelay : ℕ) := by
  rw [Avs2dSeqHeader.delay, poiOf]
  split_ifs <;> omega

theorem fullDoi_le_nextDoi (hprev : m.prevDoi < 256) : m.fullDoi ≤ m.nextDoi ph := by
  rw [Avs2dFrameMgr.fullDoi, Avs2dFrameMgr.nextDoi, updateDoi, Avs2dFrameMgr.fullDoi]
  dsimp only [doiCycle]
  split_ifs <;> omega

theorem sameShot_unmarkDiscontinuous (m : Avs2dFrameMgr) (doi : ℤ) (i : Fin maxDpbSize) :
    SameShot (m.dpb i) ((unmarkDiscontinuous m doi).dpb i) := by
  rw [unmarkDiscontinuous]
  split_ifs
  · dsimp only
    rw [unmarkDistant]
    split_ifs
    · exact ⟨⟨rfl, rfl, rfl, rfl⟩, rfl, rfl, rfl⟩
    · exact .refl _
  · exact .refl _

/-- The order of a picture whose index needs no wrapping. -/
theorem computeFrameOrderIndex_eq (vsh : Avs2dSeqHeader) (h : m.nextDoi ph < intMax - 2 * doiCycle) :
    computeFrameOrderIndex m vsh ph =
      (startOutput (updateDoi (unmarkDiscontinuous m (ph.doi : ℕ)) (ph.doi : ℕ)) ph.pictureType
        (poiOf vsh ph (m.nextDoi ph)), m.nextDoi ph, poiOf vsh ph (m.nextDoi ph)) := by
  have hmark := still_unmarkDiscontinuous m (ph.doi : ℕ)
  have hnext : (ph.doi : ℕ) +
      (updateDoi (unmarkDiscontinuous m (ph.doi : ℕ)) (ph.doi : ℕ)).trWrapCnt * doiCycle =
        m.nextDoi ph := by
    rw [Avs2dFrameMgr.nextDoi, Avs2dFrameMgr.fullDoi, updateDoi, updateDoi, hmark.prevDoi,
      hmark.trWrapCnt]
  rw [computeFrameOrderIndex, hnext, recomputeCycleOrderIndex, if_pos h]

end Indices

/-! ## The frames that wait -/

section Due

variable {m m' : Avs2dFrameMgr}

theorem Still.due (h : Still m m') : m'.due = m.due := by
  funext i
  rw [Avs2dFrameMgr.due, Avs2dFrameMgr.due]
  rcases h.frame i with hs | ⟨hp, hnone, -⟩
  · rw [hs.outputable, hs.slotIdx, hs.poi]
  · rw [hp, isOutputableFrame_of_unused hnone]
    rfl

theorem Next.due_self {c : Bool} {i : Fin maxDpbSize} {slot : ℕ} (h : Next m c i slot) :
    m.due i = some ⟨slot, (m.dpb i).poi⟩ := by
  rw [Avs2dFrameMgr.due, if_pos, h.slotIdx, Option.map_some]
  exact isOutputableFrame_iff.2 ⟨⟨slot, h.slotIdx⟩, h.visible, h.waits⟩

theorem due_shown (m : Avs2dFrameMgr) (i : Fin maxDpbSize) (slot : ℕ) :
    (m.shown i slot).due = Function.update m.due i none := by
  funext j
  rcases eq_or_ne j i with rfl | hj
  · rw [Avs2dFrameMgr.due, shown_same, Function.update_self]
    simp [isOutputableFrame]
  · rw [Avs2dFrameMgr.due, shown_of_ne hj, Function.update_of_ne hj, Avs2dFrameMgr.due]

theorem outputable_of_due {j : Fin maxDpbSize} {d : Shot} (hd : m.due j = some d) :
    isOutputableFrame (m.dpb j) ∧ d.poi = (m.dpb j).poi := by
  rw [Avs2dFrameMgr.due] at hd
  split_ifs at hd with hj
  obtain ⟨slot, -, rfl⟩ := Option.map_eq_some_iff.1 hd
  exact ⟨hj, rfl⟩

end Due

/-! ## In a sequence -/

/-- Of the visible pictures `total` of the sequence, `shown` were displayed in order, after
    what was displayed before, and `later` are to come. No frame has a decoding order index
    above `bound` that is the current one. -/
structure InSequence (vsh : Avs2dSeqHeader) (start : List ℕ) (total shown later : List Shot)
    (bound : ℤ) (m : Avs2dFrameMgr) : Prop where
  order : Emitted total shown (held m.due ++ later)
  display : m.display = start ++ shown.map Shot.slot
  cur : ∀ c ∈ m.curFrm, (m.dpb c).doi ≤ bound
  bound : noVal ≤ bound
  delay : ∀ i, isOutputableFrame (m.dpb i) →
    (m.dpb i).poi + vsh.delay ≤ (m.dpb i).doi + (m.dpb i).outDelay
  last : shown ≠ [] → ∃ s ∈ shown, s.poi = m.outputPoi

section Sequence

variable {vsh : Avs2dSeqHeader} {start : List ℕ} {total shown later : List Shot} {bound : ℤ}
  {m m' : Avs2dFrameMgr}

theorem InSequence.still (h : InSequence vsh start total shown later bound m) (hs : Still m m') :
    InSequence vsh start total shown later bound m' where
  order := by
    rw [hs.due]
    exact h.order
  display := hs.display.trans h.display
  cur c hc := by
    rw [hs.curFrm] at hc
    rcases hs.frame c with hsame | ⟨-, -, hdoi⟩
    · exact hsame.doi.trans_le (h.cur c hc)
    · exact hdoi.trans_le h.bound
  bound := h.bound
  delay i hi := by
    rcases hs.frame i with hsame | ⟨-, hnone, -⟩
    · rw [hsame.poi, hsame.doi, hsame.outDelay]
      exact h.delay i (hsame.outputable ▸ hi)
    · rw [isOutputableFrame_of_unused hnone] at hi
      cases hi
  last := by
    rw [hs.outputPoi]
    exact h.last

/-- The order is computed of a picture that needs no wrapping. -/
theorem InSequence.compute (h : InSequence vsh start total shown later bound m)
    (hnonneg : ∀ s ∈ total, 0 ≤ s.poi) (ph : Avs2dPicHeader)
    (hwrap : m.nextDoi ph < intMax - 2 * doiCycle) :
    InSequence vsh start total shown later bound (computeFrameOrderIndex m vsh ph).1 := by
  have hmark := h.still (still_unmarkDiscontinuous m (ph.doi : ℕ))
  rw [computeFrameOrderIndex_eq vsh hwrap]
  dsimp only
  generalize unmarkDiscontinuous m (ph.doi : ℕ) = n at hmark ⊢
  have hcount : InSequence vsh start total shown later bound (updateDoi n (ph.doi : ℕ)) :=
    ⟨hmark.order, hmark.display, hmark.cur, hmark.bound, hmark.delay, hmark.last⟩
  rw [startOutput]
  split_ifs with hfirst
  · -- nothing was displayed yet, for no frame displayed has the index `NO_VAL`
    refine ⟨hcount.order, hcount.display, hcount.cur, hcount.bound, hcount.delay, fun hne => ?_⟩
    obtain ⟨s, hs, hpoi⟩ := hcount.last hne
    have htotal := hnonneg s (hcount.order.perm.mem_iff.1 (List.mem_append_left _ hs))
    rw [hpoi, hfirst.1] at htotal
    exact absurd htotal (by decide)
  · exact hcount

/-- The next frame is displayed, when it comes before all pictures to come. -/
theorem InSequence.show (h : InSequence vsh start total shown later bound m)
    (hdistinct : (total.map Shot.poi).Nodup) {c : Bool} {i : Fin maxDpbSize} {slot : ℕ}
    (hnext : Next m c i slot) (hlater : ∀ p ∈ later, (m.dpb i).poi < p.poi) :
    InSequence vsh start total (shown ++ [⟨slot, (m.dpb i).poi⟩]) later bound (m.shown i slot) := by
  have hsplit := held_update_none hnext.due_self
  have horder := h.order.congr (hsplit.append_right later)
  rw [List.cons_append] at horder
  -- the frame has the smallest index of all that wait
  have hwait : ∀ d ∈ held (Function.update m.due i none), (m.dpb i).poi < d.poi := fun d hd => by
    obtain ⟨j, hj⟩ := mem_held.1 hd
    have hji : j ≠ i := by
      rintro rfl
      rw [Function.update_self] at hj
      cases hj
    rw [Function.update_of_ne hji] at hj
    obtain ⟨hout, hpoi⟩ := outputable_of_due hj
    have hle : (m.dpb i).poi ≤ d.poi := hpoi ▸ hnext.least j hout
    have hnodup := (horder.perm.map Shot.poi).nodup_iff.2 hdistinct
    rw [List.map_append, List.map_cons, List.map_append] at hnodup
    have hnot := (List.nodup_cons.1 (List.nodup_append.1 hnodup).2.1).1
    refine lt_of_le_of_ne hle fun heq => hnot (List.mem_append_left _ ?_)
    dsimp only
    rw [heq]
    exact List.mem_map_of_mem hd
  exact {
    order := by
      rw [due_shown]
      refine horder.emit fun d hd => ?_
      rcases List.mem_append.1 hd with hd | hd
      · exact hwait d hd
      · exact hlater d hd
    display := by
      show m.display ++ [slot] = _
      rw [h.display, List.map_append, List.append_assoc]
      rfl
    cur := fun j hj => by
      rcases eq_or_ne j i with rfl | hne
      · rw [shown_same]
        exact h.cur j hj
      · rw [shown_of_ne hne]
        exact h.cur j hj
    bound := h.bound
    delay := fun j hj => by
      rcases eq_or_ne j i with rfl | hne
      · rw [shown_same] at hj
        simp [isOutputableFrame] at hj
      · rw [shown_of_ne hne] at hj ⊢
        exact h.delay j hj
    last := fun _ => ⟨_, List.mem_append_right _ (List.mem_singleton_self _), rfl⟩ }

/-- A frame that was put on the display queue is removed, or it stays in the buffer. -/
theorem InSequence.output (h : InSequence vsh start total shown later bound m)
    (hdistinct : (total.map Shot.poi).Nodup) {c : Bool}
    (hlater : ∀ i slot, Next m c i slot → ∀ p ∈ later, (m.dpb i).poi < p.poi)
    (hm' : dpbOutputNextFrame m c = some m') :
    ∃ shown' ≠ [], InSequence vsh start total shown' later bound m' := by
  obtain ⟨i, slot, hnext, rfl⟩ := dpbOutputNextFrame_some hm'
  have hshow := h.show hdistinct hnext (hlater i slot hnext)
  split_ifs
  · exact ⟨_, List.concat_ne_nil _ _, hshow⟩
  · refine ⟨_, List.concat_ne_nil _ _, hshow.still (still_remove ?_)⟩
    rw [shown_same]
    simp [isOutputableFrame]

theorem InSequence.apart (h : InSequence vsh start total shown later bound m)
    (hdistinct : (total.map Shot.poi).Nodup) {d p : Shot} (hd : d ∈ held m.due) (hp : p ∈ later) :
    d.poi ≠ p.poi := by
  have hnodup := (h.order.perm.map Shot.poi).nodup_iff.2 hdistinct
  rw [List.map_append, List.map_append] at hnodup
  have hapart := (List.nodup_append.1 (List.nodup_append.1 hnodup).2.1).2.2
  exact hapart _ (List.mem_map_of_mem hd) _ (List.mem_map_of_mem hp)

/-- The next frame comes before the pictures to come. For the first one this is asked for, when
    it is not overdue. -/
theorem InSequence.lt_later (h : InSequence vsh start total shown later bound m)
    (hdistinct : (total.map Shot.poi).Nodup) (hahead : ∀ p ∈ later, bound - vsh.delay ≤ p.poi)
    {i : Fin maxDpbSize} {slot : ℕ} (hnext : Next m true i slot)
    (hfirst : shown = [] → (m.dpb i).poi - m.outputPoi ≤ 1 → ∀ p ∈ later, (m.dpb i).poi < p.poi) :
    ∀ p ∈ later, (m.dpb i).poi < p.poi := by
  intro p hp
  rcases hnext.due with hgap | hover | hfalse
  · rcases eq_or_ne shown [] with hnil | hne
    · exact hfirst hnil hgap p hp
    -- no index lies between that of the frame displayed last and this one
    obtain ⟨s, hs, hlast⟩ := h.last hne
    have hbelow : s.poi < p.poi := h.order.below s hs p (List.mem_append_right _ hp)
    have hdiff := h.apart hdistinct (mem_held.2 ⟨i, hnext.due_self⟩) hp
    dsimp only at hdiff
    omega
  · -- the decoding order has gone on by more than the delay
    have hwaits : isOutputableFrame (m.dpb i) :=
      isOutputableFrame_iff.2 ⟨⟨slot, hnext.slotIdx⟩, hnext.visible, hnext.waits⟩
    have hdelay := h.delay i hwaits
    rw [overdue] at hover
    rcases hc : m.curFrm with _ | c
    · rw [hc] at hover
      cases hover
    · rw [hc] at hover
      have hlate := of_decide_eq_true hover
      have hcur := h.cur c hc
      have hp' := hahead p hp
      omega
  · cases hfalse

/-- A picture gets a frame that was not in use. -/
theorem InSequence.alloc {tracked : Prop} {later' : List Shot} {ph : Avs2dPicHeader} {doi : ℤ}
    (h : InSequence vsh start total shown later bound m) (hh : Holds tracked m)
    {cur : Fin maxDpbSize} (hfree : (m.dpb cur).slotIdx = none) (hdoi : noVal ≤ doi)
    (hlater : later = visible [(m.slots, ph.pictureType, poiOf vsh ph doi)] ++ later')
    (rps : Avs2dRps) (marked : Finset ℕ) :
    InSequence vsh start total shown later' doi
      { dpbAllocFrame m cur ph doi (poiOf vsh ph doi) rps with
        curFrm := some cur
        codecUse := marked } := by
  have hblank := hh.blank cur hfree
  have hcur : (dpbAllocFrame m cur ph doi (poiOf vsh ph doi) rps).dpb cur = _ := setFrame_same ..
  rw [hblank] at hcur
  have hnone : m.due cur = none := by
    rw [Avs2dFrameMgr.due, hfree, Option.map_none, ite_self]
  have hdue : (dpbAllocFrame m cur ph doi (poiOf vsh ph doi) rps).due = Function.update m.due cur
      (if ph.pictureType = .gb then none else some ⟨m.slots, poiOf vsh ph doi⟩) := by
    funext j
    rcases eq_or_ne j cur with rfl | hj
    · rw [Avs2dFrameMgr.due, hcur, Function.update_self]
      by_cases ht : ph.pictureType = .gb
      · simp [isOutputableFrame, ht]
      · simp [isOutputableFrame, ht]
    · rw [Avs2dFrameMgr.due, alloc_of_ne hj, Function.update_of_ne hj, Avs2dFrameMgr.due]
  exact {
    order := by
      show Emitted total shown
        (held (dpbAllocFrame m cur ph doi (poiOf vsh ph doi) rps).due ++ later')
      refine h.order.congr ?_
      rw [hdue, hlater]
      by_cases ht : ph.pictureType = .gb
      · rw [if_pos ht, ← hnone, Function.update_eq_self]
        simp [visible, ht]
      · rw [if_neg ht]
        refine List.Perm.trans ?_ ((held_update_some hnone _).symm.append_right later')
        simp [visible, ht]
    display := h.display
    cur := fun c hc => by
      obtain rfl := Option.some.inj hc
      exact (congrArg Avs2dFrame.doi hcur).le
    bound := hdoi
    delay := fun j hj => by
      dsimp only at hj ⊢
      rcases eq_or_ne j cur with rfl | hne
      · rw [hcur]
        exact poiOf_add_delay_le vsh ph doi
      · rw [alloc_of_ne hne] at hj ⊢
        exact h.delay j hj
    last := h.last }

end Sequence

/-! ## A picture -/

/-- Either the sequence has no picture of type I yet, or a picture that waits comes before each
    of those to come. -/
def Led (later : List Shot) (m : Avs2dFrameMgr) : Prop :=
  m.outputPoi = noVal ∨ ∀ p ∈ later, ∃ d ∈ held m.due, d.poi < p.poi

/-- A picture of type I leads those after it: it comes before each of them, or one that waits
    does. And when the index after its own waits, so does one before it. -/
structure Leads (m : Avs2dFrameMgr) (poi : ℤ) (later : List Shot) : Prop where
  before : ∀ p ∈ later, poi < p.poi ∨ ∃ d ∈ held m.due, d.poi < p.poi
  near : (∃ d ∈ held m.due, d.poi = poi + 1) → ∃ d ∈ held m.due, d.poi < poi

/-- The pictures so far and the decoding order stay. -/
structure SameTime (m m' : Avs2dFrameMgr) : Prop where
  slots : m'.slots = m.slots
  pictures : m'.pictures = m.pictures
  prevDoi : m'.prevDoi = m.prevDoi
  trWrapCnt : m'.trWrapCnt = m.trWrapCnt

section Insert

variable {past m m' m'' : Avs2dFrameMgr} {vsh : Avs2dSeqHeader} {ph : Avs2dPicHeader}

theorem SameTime.refl (m : Avs2dFrameMgr) : SameTime m m := ⟨rfl, rfl, rfl, rfl⟩

theorem SameTime.trans (h : SameTime m m') (h' : SameTime m' m'') : SameTime m m'' :=
  ⟨h'.slots.trans h.slots, h'.pictures.trans h.pictures, h'.prevDoi.trans h.prevDoi,
    h'.trWrapCnt.trans h.trWrapCnt⟩

theorem Still.sameTime (h : Still m m') : SameTime m m' :=
  ⟨h.slots, h.pictures, h.prevDoi, h.trWrapCnt⟩

theorem SameTime.fullDoi (h : SameTime m m') : m'.fullDoi = m.fullDoi := by
  rw [Avs2dFrameMgr.fullDoi, Avs2dFrameMgr.fullDoi, h.prevDoi, h.trWrapCnt]

theorem sameTime_output {c : Bool} (hm' : dpbOutputNextFrame m c = some m') : SameTime m m' := by
  obtain ⟨i, slot, -, rfl⟩ := dpbOutputNextFrame_some hm'
  split_ifs <;> exact ⟨rfl, rfl, rfl, rfl⟩

theorem sameTime_room (hs : Shown past m) (vsh : Avs2dSeqHeader) (ph : Avs2dPicHeader) :
    SameTime (computeFrameOrderIndex m vsh ph).1 (m.room vsh ph) := by
  have hcount := hs.computeFrameOrderIndex vsh ph
  rw [Avs2dFrameMgr.room, dpbMakeRoom]
  generalize computeFrameOrderIndex m vsh ph = r at hcount ⊢
  have hout : Shown past ((dpbOutputNextFrame r.1 true).getD r.1) ∧
      SameTime r.1 ((dpbOutputNextFrame r.1 true).getD r.1) := by
    cases hm' : dpbOutputNextFrame r.1 true with
    | none => exact ⟨hcount, .refl _⟩
    | some m' => exact ⟨hcount.output hm', sameTime_output hm'⟩
  exact (hout.2.trans (still_removeSceneFrame hout.1 _).sameTime).trans
    (still_removeUnusedFrame _ _).sameTime

theorem sameTime_compute (vsh : Avs2dSeqHeader) (hwrap : m.nextDoi ph < intMax - 2 * doiCycle) :
    SameTime (updateDoi m (ph.doi : ℕ)) (computeFrameOrderIndex m vsh ph).1 := by
  have hmark := still_unmarkDiscontinuous m (ph.doi : ℕ)
  have hcount : SameTime (updateDoi m (ph.doi : ℕ))
      (updateDoi (unmarkDiscontinuous m (ph.doi : ℕ)) (ph.doi : ℕ)) := by
    refine ⟨hmark.slots, hmark.pictures, rfl, ?_⟩
    rw [updateDoi, updateDoi, hmark.prevDoi, hmark.trWrapCnt]
  rw [computeFrameOrderIndex_eq vsh hwrap, startOutput]
  split_ifs
  · exact ⟨hcount.slots, hcount.pictures, hcount.prevDoi, hcount.trWrapCnt⟩
  · exact hcount

/-- What a picture adds to the history, and the decoding order after it. -/
theorem insert_time (hs : Shown past m) (vsh : Avs2dSeqHeader) (rps : Avs2dRps)
    (hwrap : m.nextDoi ph < intMax - 2 * doiCycle) :
    (avs2dDpbInsert m vsh ph rps).pictures =
        m.pictures ++ [(m.slots, ph.pictureType, poiOf vsh ph (m.nextDoi ph))] ∧
      (avs2dDpbInsert m vsh ph rps).fullDoi = m.nextDoi ph ∧
      (avs2dDpbInsert m vsh ph rps).prevDoi < 256 := by
  have htime := (sameTime_compute vsh hwrap).trans (sameTime_room hs vsh ph)
  rw [avs2dDpbInsert, ← Avs2dFrameMgr.room, computeFrameOrderIndex_eq vsh hwrap]
  generalize m.room vsh ph = n at htime ⊢
  dsimp only
  generalize dpbGetOneFrame n vsh (poiOf vsh ph (m.nextDoi ph)) = cur
  generalize ha : dpbAllocFrame n cur ph (m.nextDoi ph) (poiOf vsh ph (m.nextDoi ph)) rps = a
  have hmarks := ((still_setFrameRefs { a with
    curFrm := some cur
    codecUse := a.codecUse ∪ (a.dpb cur).slotIdx.toList.toFinset } cur rps).trans
      (still_updateRefs _ rps)).sameTime
  have hfull : n.fullDoi = m.nextDoi ph := htime.fullDoi
  refine ⟨?_, ?_, ?_⟩
  · rw [hmarks.pictures, ← ha]
    show n.pictures ++ [(n.slots, ph.pictureType, poiOf vsh ph (m.nextDoi ph))] = _
    rw [htime.pictures, htime.slots]
    rfl
  · rw [hmarks.fullDoi, ← ha]
    exact hfull
  · rw [hmarks.prevDoi, ← ha]
    show n.prevDoi < 256
    rw [htime.prevDoi]
    show ((ph.doi : ℕ) : ℤ) < 256
    omega

theorem mem_visible_singleton {slot : ℕ} {t : Avs2dPicType} {poi : ℤ} {p : Shot} :
    p ∈ visible [(slot, t, poi)] ↔ t ≠ .gb ∧ p = ⟨slot, poi⟩ := by
  by_cases ht : t = .gb <;> simp [visible, ht]

theorem due_compute (vsh : Avs2dSeqHeader) (hwrap : m.nextDoi ph < intMax - 2 * doiCycle) :
    (computeFrameOrderIndex m vsh ph).1.due = m.due := by
  rw [← (still_unmarkDiscontinuous m (ph.doi : ℕ)).due, computeFrameOrderIndex_eq vsh hwrap,
    startOutput]
  split_ifs <;> rfl

theorem outputPoi_compute (vsh : Avs2dSeqHeader) (hwrap : m.nextDoi ph < intMax - 2 * doiCycle) :
    (computeFrameOrderIndex m vsh ph).1.outputPoi =
      if m.outputPoi = noVal ∧ ph.pictureType = .i then poiOf vsh ph (m.nextDoi ph)
      else m.outputPoi := by
  have hmark := (still_unmarkDiscontinuous m (ph.doi : ℕ)).outputPoi
  rw [computeFrameOrderIndex_eq vsh hwrap, startOutput, ← hmark]
  exact apply_ite Avs2dFrameMgr.outputPoi _ _ _

/-- When a sequence is led by the pictures that wait, and by its first picture of type I, the
    first frame that is output comes before the pictures to come. -/
theorem InSequence.first_lt {start : List ℕ} {total later later' : List Shot} {bound : ℤ}
    (h : InSequence vsh start total [] later bound m) (hdistinct : (total.map Shot.poi).Nodup)
    (hnonneg : ∀ s ∈ total, 0 ≤ s.poi) (hwrap : m.nextDoi ph < intMax - 2 * doiCycle)
    (hlater : later = visible [(m.slots, ph.pictureType, poiOf vsh ph (m.nextDoi ph))] ++ later')
    (hled : Led later m)
    (hleads : m.outputPoi = noVal → ph.pictureType = .i →
      Leads m (poiOf vsh ph (m.nextDoi ph)) later')
    {i : Fin maxDpbSize} {slot : ℕ} (hnext : Next (computeFrameOrderIndex m vsh ph).1 true i slot)
    (hgap : ((computeFrameOrderIndex m vsh ph).1.dpb i).poi -
      (computeFrameOrderIndex m vsh ph).1.outputPoi ≤ 1) :
    ∀ p ∈ later, ((computeFrameOrderIndex m vsh ph).1.dpb i).poi < p.poi := by
  intro p hp
  have hdue := due_compute vsh hwrap
  rw [outputPoi_compute vsh hwrap] at hgap
  generalize computeFrameOrderIndex m vsh ph = r at hnext hgap hdue ⊢
  have hmem := mem_held.2 ⟨i, hnext.due_self⟩
  have hleast : ∀ d ∈ held r.1.due, (r.1.dpb i).poi ≤ d.poi := fun d hd => by
    obtain ⟨j, hj⟩ := mem_held.1 hd
    obtain ⟨hout, hpoi⟩ := outputable_of_due hj
    exact hpoi ▸ hnext.least j hout
  rw [hdue] at hmem hleast
  have hne : (r.1.dpb i).poi ≠ p.poi := h.apart hdistinct hmem hp
  rcases hled with hnone | hall
  · by_cases ht : ph.pictureType = .i
    · rw [if_pos ⟨hnone, ht⟩] at hgap
      obtain ⟨hrest, hnear⟩ := hleads hnone ht
      rw [hlater] at hp
      rcases List.mem_append.1 hp with hp | hp
      · -- the picture of type I itself
        obtain ⟨-, rfl⟩ := mem_visible_singleton.1 hp
        dsimp only at hne ⊢
        by_contra hlt
        obtain ⟨d, hd, hbelow⟩ := hnear ⟨_, hmem, by dsimp only; omega⟩
        have := hleast d hd
        omega
      · rcases hrest p hp with hlt | ⟨d, hd, hlt⟩
        · omega
        · exact (hleast d hd).trans_lt hlt
    · -- only an index of 0 follows `NO_VAL`
      rw [if_neg fun h => ht h.2, hnone] at hgap
      have := hnonneg p (h.order.perm.mem_iff.1 (List.mem_append_right _
        (List.mem_append_right _ hp)))
      dsimp only [noVal] at hgap
      omega
  · obtain ⟨d, hd, hlt⟩ := hall p hp
    exact (hleast d hd).trans_lt hlt

/-- As long as nothing is displayed, the pictures that wait lead. -/
theorem Led.insert {start : List ℕ} {total later later' : List Shot} {bound bound' : ℤ}
    (h : InSequence vsh start total [] later bound m)
    (h' : InSequence vsh start total [] later' bound' m')
    (hwrap : m.nextDoi ph < intMax - 2 * doiCycle)
    (hlater : later = visible [(m.slots, ph.pictureType, poiOf vsh ph (m.nextDoi ph))] ++ later')
    (hled : Led later m)
    (hleads : m.outputPoi = noVal → ph.pictureType = .i →
      Leads m (poiOf vsh ph (m.nextDoi ph)) later')
    (hout : m'.outputPoi = (computeFrameOrderIndex m vsh ph).1.outputPoi) : Led later' m' := by
  have hperm := h'.order.perm.trans h.order.perm.symm
  rw [hlater, List.nil_append, List.nil_append, ← List.append_assoc,
    List.perm_append_right_iff] at hperm
  have hmem : ∀ d ∈ held m.due, d ∈ held m'.due := fun d hd =>
    hperm.mem_iff.2 (List.mem_append_left _ hd)
  rw [outputPoi_compute vsh hwrap] at hout
  rcases hled with hnone | hall
  · by_cases ht : ph.pictureType = .i
    · refine .inr fun p hp => ?_
      rcases (hleads hnone ht).1 p hp with hlt | ⟨d, hd, hlt⟩
      · have hnew : ⟨m.slots, poiOf vsh ph (m.nextDoi ph)⟩ ∈
            visible [(m.slots, ph.pictureType, poiOf vsh ph (m.nextDoi ph))] :=
          mem_visible_singleton.2 ⟨by rw [ht]; decide, rfl⟩
        exact ⟨_, hperm.mem_iff.2 (List.mem_append_right _ hnew), hlt⟩
      · exact ⟨d, hmem d hd, hlt⟩
    · rw [if_neg fun h => ht h.2] at hout
      exact .inl (hout.trans hnone)
  · refine .inr fun p hp => ?_
    obtain ⟨d, hd, hlt⟩ := hall p (hlater ▸ List.mem_append_right _ hp)
    exact ⟨d, hmem d hd, hlt⟩

/-- A picture of the sequence. -/
theorem InSequence.insert {tracked : Prop} {start : List ℕ} {total shown later later' : List Shot}
    (h : InSequence vsh start total shown later m.fullDoi m) (hs : Shown past m)
    (hh : Holds tracked m) (hdistinct : (total.map Shot.poi).Nodup) (hnonneg : ∀ s ∈ total, 0 ≤ s.poi)
    (hprev : m.prevDoi < 256) (hahead : ∀ p ∈ later, m.fullDoi - vsh.delay ≤ p.poi)
    (hwrap : m.nextDoi ph < intMax - 2 * doiCycle)
    (hled : shown = [] → Led later m)
    (hleads : m.outputPoi = noVal → ph.pictureType = .i →
      Leads m (poiOf vsh ph (m.nextDoi ph)) later')
    (hfind : FindsFrame (m.room vsh ph) vsh (computeFrameOrderIndex m vsh ph).2.2)
    (hlater : later =
      visible [(m.slots, ph.pictureType, poiOf vsh ph (m.nextDoi ph))] ++ later')
    (rps : Avs2dRps) :
    ∃ shown', InSequence vsh start total shown' later' (m.nextDoi ph)
      (avs2dDpbInsert m vsh ph rps) ∧ (shown' = [] → Led later' (avs2dDpbInsert m vsh ph rps)) := by
  have hcount := h.compute hnonneg ph hwrap
  have htime := (sameTime_compute vsh hwrap).trans (sameTime_room hs vsh ph)
  have hroomHolds : Holds tracked (m.room vsh ph) :=
    (hh.computeFrameOrderIndex vsh ph).1.makeRoom _ _
  -- the frame that is output, and those that are removed
  have hroom : ∃ shown', InSequence vsh start total shown' later m.fullDoi (m.room vsh ph) ∧
      (shown' = [] → shown = [] ∧
        (m.room vsh ph).outputPoi = (computeFrameOrderIndex m vsh ph).1.outputPoi) := by
    have hshown := hs.computeFrameOrderIndex vsh ph
    have hfirst : shown = [] → ∀ i slot, Next (computeFrameOrderIndex m vsh ph).1 true i slot → _ :=
      fun hnil _ _ hnext => (hnil ▸ h).first_lt hdistinct hnonneg hwrap hlater (hled hnil) hleads
        hnext
    rw [Avs2dFrameMgr.room, dpbMakeRoom]
    generalize computeFrameOrderIndex m vsh ph = r at hcount hshown hfirst ⊢
    have hout : Shown past ((dpbOutputNextFrame r.1 true).getD r.1) ∧ ∃ shown',
        InSequence vsh start total shown' later m.fullDoi
          ((dpbOutputNextFrame r.1 true).getD r.1) ∧
        (shown' = [] → shown = [] ∧
          ((dpbOutputNextFrame r.1 true).getD r.1).outputPoi = r.1.outputPoi) := by
      cases hm' : dpbOutputNextFrame r.1 true with
      | none => exact ⟨hshown, _, hcount, fun hnil => ⟨hnil, rfl⟩⟩
      | some m' =>
        obtain ⟨shown', hne, hout⟩ := hcount.output hdistinct (fun i slot hnext =>
          hcount.lt_later hdistinct hahead hnext fun hnil => hfirst hnil i slot hnext) hm'
        exact ⟨hshown.output hm', shown', hout, fun hnil => absurd hnil hne⟩
    obtain ⟨hshown', shown', hout, hnone⟩ := hout
    have hstill := (still_removeSceneFrame hshown' ph.pictureType).trans
      (still_removeUnusedFrame _ r.2.2)
    exact ⟨shown', hout.still hstill, fun hnil => ⟨(hnone hnil).1,
      hstill.outputPoi.trans (hnone hnil).2⟩⟩
  obtain ⟨shown', hroom, hnone⟩ := hroom
  have hslots : (m.room vsh ph).slots = m.slots := htime.slots
  have hfirst := outputPoi_compute vsh hwrap
  rw [avs2dDpbInsert, ← Avs2dFrameMgr.room]
  rw [computeFrameOrderIndex_eq vsh hwrap] at hfind ⊢
  generalize m.room vsh ph = n at hroom hroomHolds hfind hslots hnone ⊢
  dsimp only at hfind ⊢
  have hfree := hfind.slotIdx
  generalize dpbGetOneFrame n vsh (poiOf vsh ph (m.nextDoi ph)) = cur at hfree ⊢
  have halloc := hroom.alloc hroomHolds hfree (h.bound.trans (fullDoi_le_nextDoi hprev))
    (hslots ▸ hlater) rps
    ((dpbAllocFrame n cur ph (m.nextDoi ph) (poiOf vsh ph (m.nextDoi ph)) rps).codecUse ∪
      ((dpbAllocFrame n cur ph (m.nextDoi ph) (poiOf vsh ph (m.nextDoi ph)) rps).dpb
        cur).slotIdx.toList.toFinset)
  have hmarks : ∀ a, Still a (dpbUpdateRefs (dpbSetFrameRefs a cur rps) rps) := fun a =>
    (still_setFrameRefs a cur rps).trans (still_updateRefs _ rps)
  have hend := halloc.still (hmarks _)
  refine ⟨shown', hend, fun hnil => ?_⟩
  obtain ⟨hshown, hout⟩ := hnone hnil
  exact (hled hshown).insert (hshown ▸ h) (hnil ▸ hend) hwrap hlater hleads
    ((hmarks _).outputPoi.trans hout)

end Insert

/-! ## A flush -/

section Flush

variable {vsh : Avs2dSeqHeader} {start : List ℕ} {total shown : List Shot} {bound : ℤ}
  {m : Avs2dFrameMgr}

theorem InSequence.outputAll (h : InSequence vsh start total shown [] bound m)
    (hdistinct : (total.map Shot.poi).Nodup) (fuel : ℕ) :
    ∃ shown', InSequence vsh start total shown' [] bound (outputAll fuel m) := by
  induction fuel generalizing m shown with
  | zero => exact ⟨shown, h⟩
  | succ fuel ih =>
    rw [Avs2d.outputAll]
    split_ifs
    · exact ⟨shown, h⟩
    · cases hm' : dpbOutputNextFrame m false with
      | none => exact ⟨shown, h⟩
      | some m' =>
        obtain ⟨shown', -, h'⟩ := h.output hdistinct (fun _ _ _ p hp => by cases hp) hm'
        exact ih h'

/-- A flush displays the frames that wait, and then the whole sequence was displayed in order. -/
theorem InSequence.flush {tracked : Prop} (h : InSequence vsh start total shown [] bound m)
    (hh : Holds tracked m) (hdistinct : (total.map Shot.poi).Nodup) (poi : ℤ) :
    ∃ order : List Shot, order.Perm total ∧ order.Pairwise (fun a b => a.poi < b.poi) ∧
      (avs2dDpbFlush m poi).display = start ++ order.map Shot.slot := by
  have hroom := (h.still (still_unmarkAll m)).still (still_removeUnusedFrame _ poi)
  obtain ⟨order, hall⟩ := hroom.outputAll hdistinct (maxDpbSize + 1)
  have hnil : held (Avs2d.outputAll (maxDpbSize + 1)
      (dpbRemoveUnusedFrame (unmarkAll m) poi)).due = [] := held_eq_nil.2 fun i => by
    have hunused : ((Avs2d.outputAll (maxDpbSize + 1)
        (dpbRemoveUnusedFrame (unmarkAll m) poi)).dpb i).slotIdx = none := (hh.flush poi).2 i
    rw [Avs2dFrameMgr.due, isOutputableFrame_of_unused hunused]
    rfl
  have horder := hall.order
  rw [hnil, List.append_nil] at horder
  exact ⟨order, horder.done.1, horder.done.2, hall.display⟩

end Flush

/-! ## Sequences -/

/-- A sequence: its header, the headers and reference sets of its pictures, and the order
    index in the picture header when the buffer is flushed. -/
structure Sequence where
  vsh : Avs2dSeqHeader
  pictures : List (Avs2dPicHeader × Avs2dRps)
  poi : ℤ := 0

/-- The pictures are inserted. -/
def insertAll (vsh : Avs2dSeqHeader) (m : Avs2dFrameMgr) (l : List (Avs2dPicHeader × Avs2dRps)) :
    Avs2dFrameMgr :=
  l.foldl (fun m x => avs2dDpbInsert m vsh x.1 x.2) m

/-- The pictures are inserted and the buffer is flushed. -/
def Sequence.decode (m : Avs2dFrameMgr) (s : Sequence) : Avs2dFrameMgr :=
  avs2dDpbFlush (insertAll s.vsh m s.pictures) s.poi

/-- The sequences are decoded one after the other. -/
def decodeAll (l : List Sequence) : Avs2dFrameMgr := l.foldl Sequence.decode {}

/-- Every picture finds a frame. -/
def AllFind (vsh : Avs2dSeqHeader) : Avs2dFrameMgr → List (Avs2dPicHeader × Avs2dRps) → Prop
  | _, [] => True
  | m, x :: l =>
    FindsFrame (m.room vsh x.1) vsh (computeFrameOrderIndex m vsh x.1).2.2 ∧
      AllFind vsh (avs2dDpbInsert m vsh x.1 x.2) l

/-- The pictures of all sequences find a frame. -/
def AllFit : Avs2dFrameMgr → List Sequence → Prop
  | _, [] => True
  | m, s :: l => AllFind s.vsh m s.pictures ∧ AllFit (s.decode m) l

/-- The visible pictures that are to come. -/
def toCome (vsh : Avs2dSeqHeader) (m : Avs2dFrameMgr) (l : List (Avs2dPicHeader × Avs2dRps)) :
    List Shot :=
  visible ((insertAll vsh m l).pictures.drop m.pictures.length)

/-- No decoding order index is wrapped, no visible picture has a negative output order index, and
    a picture of type I before which none was displayed leads those after it. -/
def Orderly (vsh : Avs2dSeqHeader) :
    Avs2dFrameMgr → List (Avs2dPicHeader × Avs2dRps) → Prop
  | _, [] => True
  | m, x :: l =>
    m.nextDoi x.1 < intMax - 2 * doiCycle ∧
      (x.1.pictureType ≠ .gb → 0 ≤ poiOf vsh x.1 (m.nextDoi x.1)) ∧
      (m.outputPoi = noVal → x.1.pictureType = .i →
        Leads m (poiOf vsh x.1 (m.nextDoi x.1)) (toCome vsh (avs2dDpbInsert m vsh x.1 x.2) l)) ∧
      Orderly vsh (avs2dDpbInsert m vsh x.1 x.2) l

/-- The visible pictures of the sequence. -/
def Sequence.shots (s : Sequence) (m : Avs2dFrameMgr) : List Shot := toCome s.vsh m s.pictures

/-- Each visible picture of the sequence is displayed once, and nothing else is. -/
structure DisplaysAll (m : Avs2dFrameMgr) (s : Sequence) : Prop where
  kept : m.display <+: (s.decode m).display
  distinct : ((s.shots m).map Shot.slot).Nodup
  once : ((s.decode m).display.drop m.display.length).Perm ((s.shots m).map Shot.slot)

/-- The visible pictures of the sequence are displayed in the order of their indices. -/
def DisplaysInOrder (m : Avs2dFrameMgr) (s : Sequence) : Prop :=
  ∃ order : List Shot, order.Perm (s.shots m) ∧ order.Pairwise (fun a b => a.poi < b.poi) ∧
    (s.decode m).display = m.display ++ order.map Shot.slot

section Run

variable {vsh : Avs2dSeqHeader} {past m : Avs2dFrameMgr} {l : List (Avs2dPicHeader × Avs2dRps)}

/-- The pictures of a sequence are all displayed or their frames wait. -/
theorem Shown.insertAll (hs : Shown past m) (hh : Holds False m) (hfind : AllFind vsh m l) :
    Holds False (insertAll vsh m l) ∧ Shown past (Avs2d.insertAll vsh m l) := by
  induction l generalizing m with
  | nil => exact ⟨hh, hs⟩
  | cons x l ih =>
    exact ih (hs.insert hh x.2 hfind.1) (hh.insert x.2 hfind.1 False.elim).1 hfind.2

theorem toCome_cons (hs : Shown past m) (hh : Holds False m) {x : Avs2dPicHeader × Avs2dRps}
    (hfind : AllFind vsh m (x :: l)) (hwrap : m.nextDoi x.1 < intMax - 2 * doiCycle) :
    toCome vsh m (x :: l) =
      visible [(m.slots, x.1.pictureType, poiOf vsh x.1 (m.nextDoi x.1))] ++
        toCome vsh (avs2dDpbInsert m vsh x.1 x.2) l := by
  have hins := hs.insert hh x.2 hfind.1
  have hholds := (hh.insert x.2 hfind.1 False.elim).1
  obtain ⟨rest, hrest⟩ := (hins.self.insertAll hholds hfind.2).2.pictures
  have hnew := (insert_time hs vsh x.2 hwrap).1
  rw [toCome, toCome, ← visible_append]
  show visible ((insertAll vsh (avs2dDpbInsert m vsh x.1 x.2) l).pictures.drop _) = _
  rw [← hrest, List.drop_left, hnew, List.append_assoc, List.drop_left]

/-- The pictures to come keep the delay. -/
theorem fullDoi_le_toCome (hs : Shown past m) (hh : Holds False m)
    (hfind : AllFind vsh m l) (horder : Orderly vsh m l) (hprev : m.prevDoi < 256) :
    ∀ p ∈ toCome vsh m l, m.fullDoi - vsh.delay ≤ p.poi ∧ 0 ≤ p.poi := by
  induction l generalizing m with
  | nil =>
    intro p hp
    rw [toCome, insertAll, List.foldl_nil, List.drop_length] at hp
    cases hp
  | cons x l ih =>
    obtain ⟨hwrap, hnonneg, -, horder⟩ := horder
    have hle : m.fullDoi ≤ m.nextDoi x.1 := fullDoi_le_nextDoi hprev
    obtain ⟨-, hfull, hprev'⟩ := insert_time hs vsh x.2 hwrap
    intro p hp
    rw [toCome_cons hs hh hfind hwrap] at hp
    rcases List.mem_append.1 hp with hp | hp
    · obtain ⟨ht, rfl⟩ := mem_visible_singleton.1 hp
      have hdelay := sub_delay_le_poiOf vsh x.1 (m.nextDoi x.1)
      exact ⟨by dsimp only; omega, hnonneg ht⟩
    · have hrest := ih (hs.insert hh x.2 hfind.1) (hh.insert x.2 hfind.1 False.elim).1 hfind.2
        horder hprev' p hp
      rw [hfull] at hrest
      exact ⟨by omega, hrest.2⟩

/-- The pictures of an orderly sequence are displayed in order. -/
theorem InSequence.insertAll {start : List ℕ} {total shown : List Shot}
    (h : InSequence vsh start total shown (toCome vsh m l) m.fullDoi m) (hs : Shown past m)
    (hh : Holds False m) (hdistinct : (total.map Shot.poi).Nodup)
    (hnonneg : ∀ s ∈ total, 0 ≤ s.poi) (hprev : m.prevDoi < 256) (hfind : AllFind vsh m l)
    (horder : Orderly vsh m l) (hled : shown = [] → Led (toCome vsh m l) m) :
    ∃ shown', InSequence vsh start total shown' [] (insertAll vsh m l).fullDoi
      (Avs2d.insertAll vsh m l) := by
  induction l generalizing m shown with
  | nil =>
    refine ⟨shown, ?_⟩
    rwa [toCome, Avs2d.insertAll, List.foldl_nil, List.drop_length] at h
  | cons x l ih =>
    have hahead := fullDoi_le_toCome hs hh hfind horder hprev
    have hlater := toCome_cons hs hh hfind horder.1
    obtain ⟨hwrap, -, hleads, horder⟩ := horder
    obtain ⟨-, hfull, hprev'⟩ := insert_time hs vsh x.2 hwrap
    obtain ⟨shown', h', hled'⟩ := h.insert hs hh hdistinct hnonneg hprev
      (fun p hp => (hahead p hp).1) hwrap hled hleads hfind.1 hlater x.2
    rw [← hfull] at h'
    exact ih h' (hs.insert hh x.2 hfind.1) (hh.insert x.2 hfind.1 False.elim).1 hprev' hfind.2
      horder hled'

/-- The buffer is empty, and a sequence begins. -/
structure AtStart (m : Avs2dFrameMgr) : Prop where
  holds : Holds False m
  shown : Shown {} m
  unused : ∀ i, (m.dpb i).slotIdx = none
  prevDoi : m.prevDoi = noVal
  trWrapCnt : m.trWrapCnt = 0
  curFrm : m.curFrm = none
  outputPoi : m.outputPoi = noVal

theorem atStart_init : AtStart {} where
  holds := holds_init
  shown :=
    { pictures := List.prefix_rfl
      display := List.prefix_rfl
      taken := rfl
      gb := fun _ hi => absurd rfl hi
      once := by
        have hnil : held ({} : Avs2dFrameMgr).dueSlot = [] := held_eq_nil.2 fun _ => rfl
        rw [hnil]
        exact .refl _ }
  unused _ := rfl
  prevDoi := rfl
  trWrapCnt := rfl
  curFrm := rfl
  outputPoi := rfl

theorem AtStart.decode (h : AtStart m) {s : Sequence} (hfind : AllFind s.vsh m s.pictures) :
    AtStart (s.decode m) := by
  obtain ⟨hh, hs⟩ := h.shown.insertAll h.holds hfind
  exact ⟨(hh.flush s.poi).1, hs.flush s.poi, (hh.flush s.poi).2, rfl, rfl, rfl, rfl⟩

theorem sameTime_outputAll (fuel : ℕ) (m : Avs2dFrameMgr) :
    (outputAll fuel m).pictures = m.pictures := by
  induction fuel generalizing m with
  | zero => rfl
  | succ fuel ih =>
    rw [outputAll]
    split_ifs
    · rfl
    · cases hm' : dpbOutputNextFrame m false with
      | none => rfl
      | some m' => exact (ih m').trans (sameTime_output hm').pictures

theorem pictures_flush (m : Avs2dFrameMgr) (poi : ℤ) :
    (avs2dDpbFlush m poi).pictures = m.pictures := by
  have hroom := (still_unmarkAll m).trans (still_removeUnusedFrame _ poi)
  exact (sameTime_outputAll _ _).trans hroom.pictures

theorem slots_visible (l : List (ℕ × Avs2dPicType × ℤ)) :
    ((visible l).map Shot.slot).Sublist (l.map Prod.fst) := by
  rw [visible, List.map_map]
  exact List.filter_sublist.map _

/-- Each visible picture of a sequence is displayed once. -/
theorem AtStart.displaysAll (h : AtStart m) {s : Sequence} (hfind : AllFind s.vsh m s.pictures) :
    DisplaysAll m s := by
  obtain ⟨hh, hs⟩ := h.shown.self.insertAll h.holds hfind
  have hend := hs.flush s.poi
  have hall := hend.all (hh.flush s.poi).2
  have hbefore := h.shown.all h.unused
  obtain ⟨new, hnew⟩ := hs.pictures
  obtain ⟨display, hdisplay⟩ := hend.display
  have hshots : s.shots m = visible new := by
    rw [Sequence.shots, toCome, ← hnew, List.drop_left]
  exact {
    kept := hend.display
    distinct := by
      have hnodup : (m.pictures ++ new).map Prod.fst |>.Nodup := by
        rw [hnew, hs.taken]
        exact List.nodup_range
      rw [List.map_append] at hnodup
      rw [hshots]
      exact (List.nodup_append.1 hnodup).2.1.sublist (slots_visible new)
    once := by
      rw [pictures_flush, ← hnew, visible_append, List.map_append, ← hdisplay] at hall
      rw [Sequence.decode, ← hdisplay, List.drop_left, hshots]
      exact (List.perm_append_left_iff _).1 (((hbefore.symm.append_right display).trans hall)) }

/-- An orderly sequence is displayed in the order of its indices. -/
theorem AtStart.displaysInOrder (h : AtStart m) {s : Sequence}
    (hfind : AllFind s.vsh m s.pictures) (hdistinct : ((s.shots m).map Shot.poi).Nodup)
    (horder : Orderly s.vsh m s.pictures) : DisplaysInOrder m s := by
  have hfull : m.fullDoi = noVal := by
    rw [Avs2dFrameMgr.fullDoi, h.prevDoi, h.trWrapCnt]
    rfl
  have hprev : m.prevDoi < 256 := by
    rw [h.prevDoi]
    decide
  have hnil : held m.due = [] := held_eq_nil.2 fun i => by
    rw [Avs2dFrameMgr.due, h.unused i, Option.map_none, ite_self]
  have hstart : InSequence s.vsh m.display (s.shots m) [] (toCome s.vsh m s.pictures) m.fullDoi m :=
    { order := by
        rw [hnil, List.nil_append]
        exact .start _
      display := (List.append_nil _).symm
      cur := fun c hc => by
        rw [h.curFrm] at hc
        cases hc
      bound := hfull.ge
      delay := fun i hi => by
        rw [isOutputableFrame_of_unused (h.unused i)] at hi
        cases hi
      last := fun hne => absurd rfl hne }
  have hnonneg := fun p hp => (fullDoi_le_toCome h.shown h.holds hfind horder hprev p hp).2
  obtain ⟨shown', hend⟩ := hstart.insertAll h.shown h.holds hdistinct hnonneg hprev hfind horder
    fun _ => .inl h.outputPoi
  exact hend.flush (h.shown.insertAll h.holds hfind).1 hdistinct s.poi

theorem atStart_decodeAll {m : Avs2dFrameMgr} (h : AtStart m) {l : List Sequence} {s : Sequence}
    (hfit : AllFit m (l ++ [s])) : AtStart (l.foldl Sequence.decode m) ∧
      AllFind s.vsh (l.foldl Sequence.decode m) s.pictures := by
  induction l generalizing m with
  | nil => exact ⟨h, hfit.1⟩
  | cons t l ih => exact ih (h.decode hfit.1) hfit.2

/-- When all pictures find a frame, each visible picture of a sequence is displayed once, and
    if their indices are distinct and the sequence is orderly, in the order of the indices. -/
theorem sequence_displayed (past : List Sequence) (s : Sequence) (hfit : AllFit {} (past ++ [s])) :
    DisplaysAll (decodeAll past) s ∧
      (((s.shots (decodeAll past)).map Shot.poi).Nodup →
        Orderly s.vsh (decodeAll past) s.pictures →
        DisplaysInOrder (decodeAll past) s) := by
  obtain ⟨hstart, hfind⟩ := atStart_decodeAll atStart_init hfit
  exact ⟨hstart.displaysAll hfind, hstart.displaysInOrder hfind⟩

end Run

/-- Three pictures, the last of which is displayed before the second. -/
def reordered : Sequence where
  vsh := ⟨false, 1, false⟩
  pictures := [(⟨.i, 0, 1⟩, { referedByOthers := true }), (⟨.p, 1, 2⟩, { referedByOthers := true }),
    (⟨.b, 2, 0⟩, {})]

/-- They are displayed in order. -/
theorem reordered_displayed :
    DisplaysAll (decodeAll []) reordered ∧ DisplaysInOrder (decodeAll []) reordered := by
  have hfit : AllFit {} ([] ++ [reordered]) := by
    refine ⟨⟨⟨⟨0, by decide⟩, fun h => by cases h⟩,
      ⟨⟨1, by decide⟩, fun h => by cases h⟩,
      ⟨⟨2, by decide⟩, fun h => by cases h⟩, trivial⟩, trivial⟩
  obtain ⟨hall, horder⟩ := sequence_displayed [] reordered hfit
  have hlater : ∀ p ∈ toCome reordered.vsh (avs2dDpbInsert {} reordered.vsh ⟨.i, 0, 1⟩
      { referedByOthers := true }) reordered.pictures.tail, 0 < p.poi := by decide +kernel
  have hnone : held ({} : Avs2dFrameMgr).due = [] := held_eq_nil.2 fun _ => rfl
  refine ⟨hall, horder (by decide +kernel) ⟨by decide +kernel, by decide +kernel,
    fun _ _ => ⟨fun p hp => .inl (hlater p hp), fun ⟨d, hd, _⟩ => ?_⟩,
    by decide, by decide, fun _ ht => absurd ht (by decide),
    by decide, by decide, fun _ ht => absurd ht (by decide), trivial⟩⟩
  cases hnone ▸ hd

/-- A picture of type I and one that is to be displayed before it. -/
def leading : Sequence where
  vsh := ⟨false, 1, false⟩
  pictures := [(⟨.i, 0, 2⟩, { referedByOthers := true }), (⟨.b, 1, 0⟩, {})]

/-- They are displayed in the wrong order. -/
theorem leading_displayed_late : ¬ ∀ (past : List Sequence) (s : Sequence),
    DisplaysAll (decodeAll past) s ∧
      (((s.shots (decodeAll past)).map Shot.poi).Nodup → DisplaysInOrder (decodeAll past) s) := by
  intro hall
  obtain ⟨order, hperm, hsorted, hdisplay⟩ := (hall [] leading).2 (by decide +kernel)
  have hshots : leading.shots (decodeAll []) = [⟨0, 1⟩, ⟨1, 0⟩] := by decide +kernel
  have hslots : order.map Shot.slot = [0, 1] := by
    have hlist : (leading.decode (decodeAll [])).display = [0, 1] := by decide +kernel
    rw [hlist] at hdisplay
    exact hdisplay.symm
  rw [hshots] at hperm
  obtain ⟨a, b, rfl⟩ : ∃ a b, order = [a, b] :=
    List.length_eq_two.1 (by simpa using congrArg List.length hslots)
  obtain ⟨ha, hb⟩ : a.slot = 0 ∧ b.slot = 1 := by simpa using hslots
  have ha' := hperm.mem_iff.1 (List.mem_cons_self)
  have hb' := hperm.mem_iff.1 (List.mem_cons_of_mem _ (List.mem_singleton_self _))
  have hlt := (List.pairwise_cons.1 hsorted).1 b (List.mem_singleton_self _)
  simp only [List.mem_cons, List.not_mem_nil, or_false] at ha' hb'
  rcases ha' with rfl | rfl
  · rcases hb' with rfl | rfl
    · cases hb
    · exact absurd hlt (by decide)
  · cases ha

end Libmpp.Avs2d
