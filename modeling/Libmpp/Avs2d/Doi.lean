import Libmpp.Avs2d.Order

/-!
# The decoding order indices

A picture header has the last eight bits of the decoding order index. `computeFrameOrderIndex`
counts the cycles and puts them in front. For pictures whose coded index goes up by one, the
index of a picture is its place in the decoding order up to an offset, the same for all frames
in use, and so `findRefFrame` finds the picture that is a given number of places back
(`FindsExactly`).

Near `INT_MAX` the cycles but for the last one are taken off all indices
(`recomputeCycleOrderIndex`), but they stay in the count. The next picture has them again, and
they are taken off the frames a second time: the offset of the frames is no longer that of the
picture. An output order index is below zero when the delay of the sequence header is more than
the decoding order index and the delay of the picture.

`Call.Steady` says that a picture has neither, and then the order indices are exact
(`doi_exact`).
-/

namespace Libmpp.Avs2d

open Function List Option

/-! ## The pictures in the buffer -/

/-- A picture in the buffer: its place in the decoding order, by which its slot is named, and its
    order indices. -/
structure OrderIndex where
  pos : ℕ
  doi : ℤ
  poi : ℤ

/-- The order indices, `w` less. -/
def OrderIndex.sub (x : OrderIndex) (w : ℤ) : OrderIndex :=
  { x with
    doi := x.doi - w
    poi := x.poi - w }

/-- The picture in a frame in use. -/
def Avs2dFrame.orderIndex (p : Avs2dFrame) : Option OrderIndex :=
  p.slotIdx.map fun pos => ⟨pos, p.doi, p.poi⟩

/-- The picture in the frame at `i`. -/
def Avs2dFrameMgr.orderIndex (m : Avs2dFrameMgr) (i : Fin maxDpbSize) : Option OrderIndex :=
  (m.dpb i).orderIndex

/-- A frame that is not in use has no other data, and `usedSize` counts every frame in use. -/
structure Counted (m : Avs2dFrameMgr) : Prop where
  blank : ∀ i, (m.dpb i).slotIdx = none → m.dpb i = {}
  used : (held m.slotOf).length ≤ m.usedSize

/-- The frames keep their pictures, or they are removed. -/
structure Kept (m m' : Avs2dFrameMgr) : Prop where
  frame : ∀ i, m'.orderIndex i = none ∨ m'.orderIndex i = m.orderIndex i
  slots : m'.slots = m.slots
  prevDoi : m'.prevDoi = m.prevDoi
  trWrapCnt : m'.trWrapCnt = m.trWrapCnt
  outputPoi : m'.outputPoi = m.outputPoi ∨ ∃ i x, m.orderIndex i = some x ∧ m'.outputPoi = x.poi
  counted : Counted m'

section Frames

variable {m m' m'' : Avs2dFrameMgr} {i : Fin maxDpbSize}

theorem Avs2dFrame.slotIdx_eq (p : Avs2dFrame) : p.slotIdx = p.orderIndex.map OrderIndex.pos := by
  rw [orderIndex, Option.map_map]
  exact map_id'.symm

theorem orderIndex_eq_none : m.orderIndex i = none ↔ (m.dpb i).slotIdx = none :=
  map_eq_none_iff

theorem exists_orderIndex (hi : (m.dpb i).slotIdx ≠ none) : ∃ x, m.orderIndex i = some x :=
  ne_none_iff_exists'.1 fun hnone => hi (orderIndex_eq_none.1 hnone)

theorem orderIndex_eq_some {x : OrderIndex} : m.orderIndex i = some x ↔
    (m.dpb i).slotIdx = some x.pos ∧ (m.dpb i).doi = x.doi ∧ (m.dpb i).poi = x.poi := by
  rw [Avs2dFrameMgr.orderIndex, Avs2dFrame.orderIndex, map_eq_some_iff]
  constructor
  · rintro ⟨pos, hpos, rfl⟩
    exact ⟨hpos, rfl, rfl⟩
  · rintro ⟨hpos, hdoi, hpoi⟩
    exact ⟨x.pos, hpos, by rw [hdoi, hpoi]⟩

theorem slotOf_congr (h : ∀ i, m'.orderIndex i = m.orderIndex i) : m'.slotOf = m.slotOf := by
  funext i
  rw [Avs2dFrameMgr.slotOf, Avs2dFrameMgr.slotOf, Avs2dFrame.slotIdx_eq, Avs2dFrame.slotIdx_eq]
  exact congrArg _ (h i)

theorem Kept.refl (h : Counted m) : Kept m m := ⟨fun _ => .inr rfl, rfl, rfl, rfl, .inl rfl, h⟩

theorem Kept.trans (h : Kept m m') (h' : Kept m' m'') : Kept m m'' where
  frame i := by
    rcases h'.frame i with hnone | hsame
    · exact .inl hnone
    · rw [hsame]
      exact h.frame i
  slots := h'.slots.trans h.slots
  prevDoi := h'.prevDoi.trans h.prevDoi
  trWrapCnt := h'.trWrapCnt.trans h.trWrapCnt
  outputPoi := by
    rcases h'.outputPoi with hsame | ⟨i, x, hx, hpoi⟩
    · rw [hsame]
      exact h.outputPoi
    · rcases h.frame i with hnone | hi
      · rw [hnone] at hx
        cases hx
      · exact .inr ⟨i, x, hi.symm.trans hx, hpoi⟩
  counted := h'.counted

/-- Frames get other marks. -/
theorem kept_of_same (h : Counted m) (hframe : ∀ i, m'.orderIndex i = m.orderIndex i)
    (hblank : ∀ i, m.dpb i = {} → m'.dpb i = {}) (hslots : m'.slots = m.slots)
    (hprev : m'.prevDoi = m.prevDoi) (hwrap : m'.trWrapCnt = m.trWrapCnt)
    (hout : m'.outputPoi = m.outputPoi) (hused : m'.usedSize = m.usedSize) : Kept m m' where
  frame i := .inr (hframe i)
  slots := hslots
  prevDoi := hprev
  trWrapCnt := hwrap
  outputPoi := .inl hout
  counted := {
    blank := fun i hi => by
      rw [← orderIndex_eq_none, hframe, orderIndex_eq_none] at hi
      exact hblank i (h.blank i hi)
    used := by
      rw [slotOf_congr hframe, hused]
      exact h.used }

theorem orderIndex_setFrame (m : Avs2dFrameMgr) (i : Fin maxDpbSize) (p : Avs2dFrame) :
    (m.setFrame i p).orderIndex = update m.orderIndex i p.orderIndex := by
  funext j
  rcases eq_or_ne j i with rfl | hj
  · rw [Avs2dFrameMgr.orderIndex, setFrame_same, update_self]
  · rw [Avs2dFrameMgr.orderIndex, setFrame_of_ne hj, update_of_ne hj,
      Avs2dFrameMgr.orderIndex]

/-- A frame gets other marks. -/
theorem kept_setFrame (h : Counted m) {p : Avs2dFrame} (hp : p.orderIndex = m.orderIndex i)
    (hblank : m.dpb i = {} → p = {}) : Kept m (m.setFrame i p) := by
  refine kept_of_same h (fun j => ?_) (fun j hj => ?_) rfl rfl rfl rfl rfl
  · rw [orderIndex_setFrame, hp, update_eq_self]
  · rcases eq_or_ne j i with rfl | hne
    · rw [setFrame_same]
      exact hblank hj
    · rw [setFrame_of_ne hne]
      exact hj

/-- A frame in use is removed. -/
theorem kept_remove (h : Counted m) (hi : (m.dpb i).slotIdx ≠ none) :
    Kept m (dpbRemoveFrame m i) := by
  obtain ⟨slot, hslot⟩ := ne_none_iff_exists'.1 hi
  have hindex : (dpbRemoveFrame m i).orderIndex = update m.orderIndex i none :=
    orderIndex_setFrame m i {}
  have hslotOf : (dpbRemoveFrame m i).slotOf = update m.slotOf i none :=
    slotOf_setFrame m i {}
  refine ⟨fun j => ?_, rfl, rfl, rfl, .inl rfl, fun j hj => ?_, ?_⟩
  · rw [hindex]
    rcases eq_or_ne j i with rfl | hj
    · exact .inl (update_self ..)
    · exact .inr (update_of_ne hj ..)
  · rcases eq_or_ne j i with rfl | hne
    · exact setFrame_same ..
    · rw [removed_of_ne hne] at hj ⊢
      exact h.blank j hj
  · have hlen := (held_update_none (f := m.slotOf) hslot).length_eq
    have hused := h.used
    rw [length_cons] at hlen
    show (held (dpbRemoveFrame m i).slotOf).length ≤ m.usedSize - 1
    rw [hslotOf]
    omega

end Frames

/-! ## The parts of a call -/

section Parts

variable {m m' : Avs2dFrameMgr}

theorem orderIndex_unmarkDistant (doi : ℤ) (p : Avs2dFrame) :
    (unmarkDistant doi p).orderIndex = p.orderIndex := by
  rw [unmarkDistant]
  split_ifs <;> rfl

theorem kept_unmarkDiscontinuous (h : Counted m) (doi : ℤ) :
    Kept m (unmarkDiscontinuous m doi) := by
  rw [unmarkDiscontinuous]
  split_ifs
  · refine kept_of_same h (fun i => orderIndex_unmarkDistant doi (m.dpb i)) (fun i hi => ?_)
      rfl rfl rfl rfl rfl
    dsimp only
    rw [hi]
    rfl
  · exact .refl h

/-- A frame goes to the display queue. -/
theorem kept_shown (h : Counted m) {i : Fin maxDpbSize} {slot : ℕ}
    (hi : (m.dpb i).slotIdx = some slot) : Kept m (m.shown i slot) := by
  have hmark : Kept m (m.setFrame i { m.dpb i with isOutput := true }) :=
    kept_setFrame h rfl fun hblank => by
      rw [hblank] at hi
      cases hi
  exact { hmark with
    outputPoi := .inr ⟨i, ⟨slot, _, _⟩, orderIndex_eq_some.2 ⟨hi, rfl, rfl⟩, rfl⟩
    counted := ⟨hmark.counted.blank, hmark.counted.used⟩ }

theorem kept_output (h : Counted m) {c : Bool} (hm' : dpbOutputNextFrame m c = some m') :
    Kept m m' := by
  obtain ⟨i, slot, hnext, rfl⟩ := dpbOutputNextFrame_some hm'
  have hshown := kept_shown h hnext.slotIdx
  split_ifs
  · exact hshown
  · refine hshown.trans (kept_remove hshown.counted ?_)
    rw [shown_same, hnext.slotIdx]
    exact some_ne_none _

theorem kept_removeSceneFrame (h : Counted m) (t : Avs2dPicType) :
    Kept m (dpbRemoveSceneFrame m t) := by
  rw [dpbRemoveSceneFrame]
  split_ifs
  · rcases m.sceneRef with _ | i
    · exact .refl h
    · have hmark : Kept m (m.setFrame i { m.dpb i with referedByScene := false }) :=
        kept_setFrame h rfl fun hblank => by rw [hblank]
      have hclear : ∀ {m' : Avs2dFrameMgr}, Kept m m' → Kept m { m' with sceneRef := none } :=
        fun h => { h with counted := ⟨h.counted.blank, h.counted.used⟩ }
      dsimp only
      split_ifs with hgb
      · refine hclear (hmark.trans (kept_remove hmark.counted fun hi => ?_))
        -- a frame that is not in use is of type I
        rw [hmark.counted.blank i hi] at hgb
        cases hgb
      · exact hclear hmark
  · exact .refl h

theorem kept_removeUnusedStep (h : Counted m) (poi : ℤ) (i : Fin maxDpbSize) :
    Kept m (removeUnusedStep poi m i) := by
  rw [removeUnusedStep]
  by_cases hi : (m.dpb i).slotIdx = none
  · rw [if_pos hi]
    exact .refl h
  · rw [if_neg hi]
    have hsame := sameShot_unmarkFar poi (m.dpb i)
    have hindex : (unmarkFar poi (m.dpb i)).orderIndex = m.orderIndex i := by
      rw [Avs2dFrame.orderIndex, hsame.slotIdx, hsame.doi, hsame.poi]
      rfl
    have hmark : Kept m (m.setFrame i (unmarkFar poi (m.dpb i))) :=
      kept_setFrame h hindex fun hblank => absurd (congrArg Avs2dFrame.slotIdx hblank) hi
    dsimp only
    split_ifs
    · refine hmark.trans (kept_remove hmark.counted ?_)
      rw [setFrame_same, hsame.slotIdx]
      exact hi
    · exact hmark

theorem kept_removeUnusedFrame (h : Counted m) (poi : ℤ) : Kept m (dpbRemoveUnusedFrame m poi) := by
  rw [dpbRemoveUnusedFrame]
  induction List.finRange maxDpbSize generalizing m with
  | nil => exact .refl h
  | cons i l ih =>
    have hstep := kept_removeUnusedStep h poi i
    exact hstep.trans (ih hstep.counted)

theorem kept_makeRoom (h : Counted m) (t : Avs2dPicType) (poi : ℤ) :
    Kept m (dpbMakeRoom m t poi) := by
  have hout : Kept m ((dpbOutputNextFrame m true).getD m) := by
    cases hm' : dpbOutputNextFrame m true with
    | none => exact .refl h
    | some m' => exact kept_output h hm'
  have hscene := hout.trans (kept_removeSceneFrame hout.counted t)
  exact hscene.trans (kept_removeUnusedFrame hscene.counted poi)

theorem kept_setFrameRefs (h : Counted m) (cur : Fin maxDpbSize) (l : List ℕ) :
    Kept m (l.foldl (setRefStep cur) m) ∧ (l.foldl (setRefStep cur) m).dpb = m.dpb := by
  induction l generalizing m with
  | nil => exact ⟨.refl h, rfl⟩
  | cons delta l ih =>
    have hstep : Kept m (setRefStep cur m delta) ∧ (setRefStep cur m delta).dpb = m.dpb := by
      rw [setRefStep]
      cases findRefFrame m ((m.dpb cur).doi - delta) with
      | none => exact ⟨.refl h, rfl⟩
      | some i => exact ⟨{ Kept.refl h with counted := ⟨h.blank, h.used⟩ }, rfl⟩
    obtain ⟨hrest, hdpb⟩ := ih hstep.1.counted
    exact ⟨hstep.1.trans hrest, hdpb.trans hstep.2⟩

/-- The references of other pictures lose their marks only. -/
theorem kept_removeRefs (h : Counted m) (cur : Fin maxDpbSize) (l : List ℕ) :
    Kept m (l.foldl (removeRefStep cur) m) ∧
      (l.foldl (removeRefStep cur) m).orderIndex = m.orderIndex := by
  induction l generalizing m with
  | nil => exact ⟨.refl h, rfl⟩
  | cons delta l ih =>
    have hstep : Kept m (removeRefStep cur m delta) ∧
        (removeRefStep cur m delta).orderIndex = m.orderIndex := by
      rw [removeRefStep]
      rcases hi : findRefFrame m ((m.dpb cur).doi - delta) with _ | i
      · exact ⟨.refl h, rfl⟩
      · refine ⟨kept_setFrame h rfl fun hblank => ?_, ?_⟩
        · exact absurd (congrArg Avs2dFrame.slotIdx hblank) (slotIdx_findRefFrame hi)
        · exact (orderIndex_setFrame m i _).trans (update_eq_self i m.orderIndex)
    obtain ⟨hrest, hindex⟩ := ih hstep.1.counted
    exact ⟨hstep.1.trans hrest, hindex.trans hstep.2⟩

theorem kept_updateSceneRef (h : Counted m) (cur : Fin maxDpbSize) :
    Kept m (updateSceneRef m cur) ∧ (updateSceneRef m cur).dpb = m.dpb := by
  rw [updateSceneRef]
  split_ifs
  · exact ⟨{ Kept.refl h with counted := ⟨h.blank, h.used⟩ }, rfl⟩
  · exact ⟨.refl h, rfl⟩

theorem kept_unmarkAll (h : Counted m) : Kept m (unmarkAll m) := by
  refine kept_of_same h (fun i => ?_) (fun i hi => ?_) rfl rfl rfl rfl rfl
  · rw [Avs2dFrameMgr.orderIndex, unmarkAll]
    dsimp only
    split_ifs <;> rfl
  · rw [unmarkAll]
    dsimp only
    rw [hi]
    rfl

theorem kept_outputAll (h : Counted m) (fuel : ℕ) : Kept m (outputAll fuel m) := by
  induction fuel generalizing m with
  | zero => exact .refl h
  | succ fuel ih =>
    rw [outputAll]
    split_ifs
    · exact .refl h
    · cases hm' : dpbOutputNextFrame m false with
      | none => exact .refl h
      | some m' =>
        have hout := kept_output h hm'
        exact hout.trans (ih hout.counted)

end Parts

/-! ## Indices in order -/

/-- The frames in use have different places, all taken before, and the decoding order index of
    each is its place with `offset`. No index is below zero, nor too large. -/
structure Ordered (offset : ℤ) (m : Avs2dFrameMgr) : Prop where
  position : ∀ i x, m.orderIndex i = some x → x.doi = x.pos + offset
  below : ∀ i x, m.orderIndex i = some x → x.pos < m.slots
  distinct : ∀ i j x y, m.orderIndex i = some x → m.orderIndex j = some y → x.pos = y.pos → i = j
  range : ∀ i x, m.orderIndex i = some x → (0 ≤ x.doi ∧ x.doi < intMax) ∧ 0 ≤ x.poi ∧ x.poi < intMax
  output : m.outputPoi = noVal ∨ 0 ≤ m.outputPoi ∧ m.outputPoi < intMax

/-- `find_ref_frame` finds the picture that is `delta` places before the one at `cur`, when it
    is in the buffer, and no other. -/
def FindsExactly (m : Avs2dFrameMgr) (cur : Fin maxDpbSize) (pos : ℕ) : Prop :=
  ∀ (delta : ℕ) i, findRefFrame m ((m.dpb cur).doi - delta) = some i ↔
    ∃ x, m.orderIndex i = some x ∧ x.pos + delta = pos

section Ordered

variable {offset : ℤ} {m m' : Avs2dFrameMgr}

theorem Ordered.kept (h : Ordered offset m) (hk : Kept m m') : Ordered offset m' := by
  have hback : ∀ i x, m'.orderIndex i = some x → m.orderIndex i = some x := fun i x hx => by
    rcases hk.frame i with hnone | hsame
    · rw [hnone] at hx
      cases hx
    · exact hsame ▸ hx
  exact {
    position := fun i x hx => h.position i x (hback i x hx)
    below := fun i x hx => (h.below i x (hback i x hx)).trans_eq hk.slots.symm
    distinct := fun i j x y hx hy => h.distinct i j x y (hback i x hx) (hback j y hy)
    range := fun i x hx => h.range i x (hback i x hx)
    output := by
      rcases hk.outputPoi with hsame | ⟨i, x, hx, hpoi⟩
      · rw [hsame]
        exact h.output
      · rw [hpoi]
        exact .inr (h.range i x hx).2 }

/-- Without pictures any offset will do. -/
theorem Ordered.of_empty (hnone : ∀ i, m.orderIndex i = none) (hout : m.outputPoi = noVal)
    (offset : ℤ) : Ordered offset m := by
  have hempty : ∀ i x, m.orderIndex i ≠ some x := fun i x hx => by
    rw [hnone] at hx
    cases hx
  exact ⟨fun i x hx => absurd hx (hempty i x), fun i x hx => absurd hx (hempty i x),
    fun i _ x _ hx => absurd hx (hempty i x), fun i x hx => absurd hx (hempty i x), .inl hout⟩

theorem Ordered.findsExactly (h : Ordered offset m) {cur : Fin maxDpbSize} {x : OrderIndex}
    (hcur : m.orderIndex cur = some x) : FindsExactly m cur x.pos := by
  intro delta i
  have hdoi : (m.dpb cur).doi = x.pos + offset :=
    (orderIndex_eq_some.1 hcur).2.1.trans (h.position cur x hcur)
  have hmatch : ∀ {j y}, m.orderIndex j = some y →
      ((m.dpb cur).doi - delta = (m.dpb j).doi ↔ y.pos + delta = x.pos) := fun {j y} hy => by
    have hpos := h.position j y hy
    rw [hdoi, (orderIndex_eq_some.1 hy).2.1, hpos]
    omega
  constructor
  · intro hi
    have hfound := find?_some hi
    simp only [decide_eq_true_eq] at hfound
    obtain ⟨y, hy⟩ := exists_orderIndex hfound.1
    exact ⟨y, hy, (hmatch hy).1 hfound.2.2.2⟩
  · rintro ⟨y, hy, hpos⟩
    rcases hj : findRefFrame m ((m.dpb cur).doi - delta) with _ | j
    · -- the loop does not pass over the frame at `i`
      have hall := find?_eq_none.1 hj i (mem_finRange i)
      obtain ⟨hslot, hi, -⟩ := orderIndex_eq_some.1 hy
      have hnonneg : 0 ≤ (m.dpb i).doi := hi ▸ (h.range i y hy).1.1
      refine absurd (decide_eq_true ⟨?_, ?_, hnonneg, (hmatch hy).2 hpos⟩) hall
      · rw [hslot]
        exact some_ne_none _
      · exact fun hval => absurd (hval ▸ hnonneg) (by decide)
    · have hfound := find?_some hj
      simp only [decide_eq_true_eq] at hfound
      obtain ⟨z, hz⟩ := exists_orderIndex hfound.1
      have hposz := (hmatch hz).1 hfound.2.2.2
      rw [h.distinct j i z y hz hy (by omega)]

/-- A picture gets its frame. -/
theorem Ordered.alloc (h : Ordered offset m) (cur : Fin maxDpbSize) (ph : Avs2dPicHeader) {poi : ℤ}
    (rps : Avs2dRps) (hdoi : 0 ≤ m.slots + offset ∧ m.slots + offset < intMax)
    (hpoi : 0 ≤ poi ∧ poi < intMax) :
    Ordered offset (dpbAllocFrame m cur ph (m.slots + offset) poi rps) := by
  have hindex : (dpbAllocFrame m cur ph (m.slots + offset) poi rps).orderIndex =
      update m.orderIndex cur (some ⟨m.slots, m.slots + offset, poi⟩) :=
    orderIndex_setFrame ..
  have hcases : ∀ i x, (dpbAllocFrame m cur ph (m.slots + offset) poi rps).orderIndex i = some x →
      i = cur ∧ x = ⟨m.slots, m.slots + offset, poi⟩ ∨ m.orderIndex i = some x := fun i x hx => by
    rw [hindex] at hx
    rcases eq_or_ne i cur with rfl | hi
    · rw [update_self] at hx
      exact .inl ⟨rfl, (some.inj hx).symm⟩
    · rw [update_of_ne hi] at hx
      exact .inr hx
  have hslots : (dpbAllocFrame m cur ph (m.slots + offset) poi rps).slots = m.slots + 1 := rfl
  refine ⟨fun i x hx => ?_, fun i x hx => ?_, fun i j x y hx hy hpos => ?_, fun i x hx => ?_,
    h.output⟩
  · rcases hcases i x hx with ⟨-, rfl⟩ | hx
    · rfl
    · exact h.position i x hx
  · rw [hslots]
    rcases hcases i x hx with ⟨-, rfl⟩ | hx
    · exact Nat.lt_succ_self _
    · exact Nat.lt_succ_of_lt (h.below i x hx)
  · rcases hcases i x hx with ⟨rfl, rfl⟩ | hi <;> rcases hcases j y hy with ⟨rfl, rfl⟩ | hj
    · rfl
    · exact absurd hpos (h.below j y hj).ne'
    · exact absurd hpos (h.below i x hi).ne
    · exact h.distinct i j x y hi hj hpos
  · rcases hcases i x hx with ⟨-, rfl⟩ | hx
    · exact ⟨hdoi, hpoi⟩
    · exact h.range i x hx

theorem Counted.alloc (h : Counted m) (cur : Fin maxDpbSize) (ph : Avs2dPicHeader) (doi poi : ℤ)
    (rps : Avs2dRps) : Counted (dpbAllocFrame m cur ph doi poi rps) := by
  have hslotOf : (dpbAllocFrame m cur ph doi poi rps).slotOf =
      update m.slotOf cur (some m.slots) :=
    slotOf_setFrame ..
  refine ⟨fun j hj => ?_, ?_⟩
  · rcases eq_or_ne j cur with rfl | hne
    · exact absurd hj (by simp [dpbAllocFrame, Avs2dFrameMgr.setFrame])
    · rw [alloc_of_ne hne] at hj ⊢
      exact h.blank j hj
  · show _ ≤ m.usedSize + 1
    have hused := h.used
    rw [hslotOf]
    rcases hcur : m.slotOf cur with _ | slot
    · have hlen := (held_update_some (f := m.slotOf) hcur m.slots).length_eq
      rw [length_cons] at hlen
      omega
    · -- the frame held a slot before
      have hfree := (held_update_none (f := m.slotOf) hcur).length_eq
      have htake := (held_update_some (f := update m.slotOf cur none)
        (update_self ..) m.slots).length_eq
      rw [update_idem] at htake
      rw [length_cons] at hfree htake
      omega

end Ordered

/-! ## A flush -/

section Flush

variable {m : Avs2dFrameMgr}

/-- The loop of the flush ends when no frame is in use. -/
theorem OnlyWaiting.empties (fuel : ℕ) (hw : OnlyWaiting m) (h : Counted m)
    (hpoi : ∀ i, (m.dpb i).slotIdx ≠ none → (m.dpb i).poi < intMax)
    (hfuel : (held m.slotOf).length ≤ fuel) (i : Fin maxDpbSize) :
    ((Avs2d.outputAll fuel m).dpb i).slotIdx = none := by
  have hempty : (held m.slotOf).length = 0 → ∀ i, (m.dpb i).slotIdx = none := fun hzero =>
    held_eq_nil.1 (length_eq_zero_iff.1 hzero)
  induction fuel generalizing m with
  | zero => exact hempty (Nat.le_zero.1 hfuel) i
  | succ fuel ih =>
    rw [Avs2d.outputAll]
    by_cases hzero : m.usedSize = 0
    · rw [if_pos hzero]
      exact hempty (Nat.le_zero.1 (h.used.trans_eq hzero)) i
    · rw [if_neg hzero]
      rcases dpbOutputNextFrame_cases m false with ⟨hnone, hwait⟩ | ⟨j, slot, hnext, hsome⟩
      · rw [hnone]
        by_contra hi
        exact absurd (hpoi i hi) (not_lt.2 (hwait rfl i (hw i hi).1))
      · have hj : (m.dpb j).slotIdx ≠ none := by
          rw [hnext.slotIdx]
          exact some_ne_none _
        rw [(hw j hj).2] at hsome
        simp only [Bool.false_eq_true, if_false] at hsome
        have hkept := kept_output h hsome
        have hshown : (m.shown j slot).slotOf = update m.slotOf j (m.dpb j).slotIdx :=
          slotOf_setFrame m j _
        have hslotOf : (dpbRemoveFrame (m.shown j slot) j).slotOf =
            update m.slotOf j none := by
          have hremoved := slotOf_setFrame (m.shown j slot) j {}
          rw [hshown, update_idem] at hremoved
          exact hremoved
        rw [hsome]
        refine ih (hw.remove j slot) hkept.counted (fun k hk => ?_) ?_ fun hz =>
          held_eq_nil.1 (length_eq_zero_iff.1 hz)
        · rcases eq_or_ne k j with rfl | hne
          · exact absurd (congrArg Avs2dFrame.slotIdx (setFrame_same (m.shown k slot) k {})) hk
          · rw [removed_of_ne hne, shown_of_ne hne] at hk ⊢
            exact hpoi k hk
        · have hlen := (held_update_none (f := m.slotOf) hnext.slotIdx).length_eq
          rw [length_cons] at hlen
          rw [hslotOf]
          omega

/-- A flush empties the buffer. -/
theorem Ordered.flush {offset : ℤ} (h : Ordered offset m) (hc : Counted m) (poi : ℤ) :
    Counted (avs2dDpbFlush m poi) ∧ ∀ i, (avs2dDpbFlush m poi).orderIndex i = none := by
  have hmark := kept_unmarkAll hc
  have hroom := hmark.trans (kept_removeUnusedFrame hmark.counted poi)
  have hall := hroom.trans (kept_outputAll hroom.counted (maxDpbSize + 1))
  have hunused := (onlyWaiting_removeUnused m poi).empties (maxDpbSize + 1) hroom.counted
    (fun i hi => ?_) ?_
  · refine ⟨⟨hall.counted.blank, ?_⟩, fun i => orderIndex_eq_none.2 (hunused i)⟩
    exact (length_eq_zero_iff.2 (held_eq_nil.2 hunused)).trans_le (Nat.zero_le _)
  · obtain ⟨x, hx⟩ := exists_orderIndex hi
    rw [(orderIndex_eq_some.1 hx).2.2]
    exact ((h.kept hroom).range i x hx).2.2
  · refine ((length_filterMap_le _ _).trans_eq length_finRange).trans ?_
    exact Nat.le_succ maxDpbSize

end Flush

/-! ## The order of a picture -/

section Compute

variable {m : Avs2dFrameMgr} {vsh : Avs2dSeqHeader} {ph : Avs2dPicHeader}

/-- What is taken off the indices for a picture. -/
def Avs2dFrameMgr.wrapOi (m : Avs2dFrameMgr) (ph : Avs2dPicHeader) : ℤ :=
  if m.nextDoi ph < intMax - 2 * doiCycle then 0
  else ((updateDoi m (ph.doi : ℕ)).trWrapCnt - 1) * doiCycle

theorem orderIndex_sub_zero (x : OrderIndex) : x.sub 0 = x := by
  rw [OrderIndex.sub, sub_zero, sub_zero]

theorem orderIndex_wrapFrame (w : ℤ) (p : Avs2dFrame) :
    (wrapFrame w p).orderIndex = p.orderIndex.map fun x => x.sub w := by
  rw [wrapFrame]
  split_ifs with hp
  · rw [Avs2dFrame.orderIndex, hp]
    rfl
  · rw [Avs2dFrame.orderIndex, Avs2dFrame.orderIndex, Option.map_map]
    rfl

/-- What `compute_frame_order_index` leaves behind for a picture with the output order index
    `poi`, when `w` is taken off the indices. -/
structure Computed (m : Avs2dFrameMgr) (ph : Avs2dPicHeader) (w poi : ℤ) (m' : Avs2dFrameMgr) :
    Prop where
  index : ∀ i, m'.orderIndex i = (m.orderIndex i).map fun x => x.sub w
  slots : m'.slots = m.slots
  prevDoi : m'.prevDoi = (ph.doi : ℕ)
  trWrapCnt : m'.trWrapCnt = (updateDoi m (ph.doi : ℕ)).trWrapCnt
  outputPoi : m'.outputPoi = (if m.outputPoi ≠ noVal then m.outputPoi - w else m.outputPoi) ∨
    (m.outputPoi = noVal ∨ m.outputPoi - w = noVal) ∧ m'.outputPoi = poi
  counted : Counted m → Counted m'

theorem Computed.start {w poi : ℤ} {m' : Avs2dFrameMgr} (h : Computed m ph w poi m')
    (hout : m'.outputPoi = if m.outputPoi ≠ noVal then m.outputPoi - w else m.outputPoi)
    (t : Avs2dPicType) : Computed m ph w poi (startOutput m' t poi) := by
  rw [startOutput]
  split_ifs with hfirst
  · refine { h with
      outputPoi := .inr ⟨?_, rfl⟩
      counted := fun hc => ⟨(h.counted hc).blank, (h.counted hc).used⟩ }
    rw [hfirst.1] at hout
    split_ifs at hout
    · exact .inr hout.symm
    · exact .inl hout.symm
  · exact h

/-- The indices of the frames, and those of the picture. -/
theorem computeFrameOrderIndex_spec (m : Avs2dFrameMgr) (vsh : Avs2dSeqHeader)
    (ph : Avs2dPicHeader) :
    Computed m ph (m.wrapOi ph) (computeFrameOrderIndex m vsh ph).2.2
      (computeFrameOrderIndex m vsh ph).1 ∧
    (computeFrameOrderIndex m vsh ph).2.1 = m.nextDoi ph - m.wrapOi ph ∧
    (computeFrameOrderIndex m vsh ph).2.2 = poiOf vsh ph (m.nextDoi ph - m.wrapOi ph) := by
  have hmark := still_unmarkDiscontinuous m (ph.doi : ℕ)
  have hindex : ∀ i, (updateDoi (unmarkDiscontinuous m (ph.doi : ℕ)) (ph.doi : ℕ)).orderIndex i =
      m.orderIndex i := fun i => by
    have hsame := sameShot_unmarkDiscontinuous m (ph.doi : ℕ) i
    rw [Avs2dFrameMgr.orderIndex, updateDoi, Avs2dFrame.orderIndex, hsame.slotIdx, hsame.doi,
      hsame.poi]
    rfl
  have hcount : Counted m →
      Counted (updateDoi (unmarkDiscontinuous m (ph.doi : ℕ)) (ph.doi : ℕ)) := fun hc =>
    ⟨(kept_unmarkDiscontinuous hc _).counted.blank, (kept_unmarkDiscontinuous hc _).counted.used⟩
  have hcnt : (updateDoi (unmarkDiscontinuous m (ph.doi : ℕ)) (ph.doi : ℕ)).trWrapCnt =
      (updateDoi m (ph.doi : ℕ)).trWrapCnt := by
    rw [updateDoi, updateDoi, hmark.prevDoi, hmark.trWrapCnt]
  have hnext : (ph.doi : ℕ) + (updateDoi m (ph.doi : ℕ)).trWrapCnt * doiCycle = m.nextDoi ph := rfl
  have hslots : (updateDoi (unmarkDiscontinuous m (ph.doi : ℕ)) (ph.doi : ℕ)).slots = m.slots :=
    hmark.slots
  have hout : (updateDoi (unmarkDiscontinuous m (ph.doi : ℕ)) (ph.doi : ℕ)).outputPoi =
      m.outputPoi := hmark.outputPoi
  have hprev : (updateDoi (unmarkDiscontinuous m (ph.doi : ℕ)) (ph.doi : ℕ)).prevDoi =
      (ph.doi : ℕ) := rfl
  rw [computeFrameOrderIndex]
  dsimp only
  rw [hcnt, hnext, Avs2dFrameMgr.wrapOi, recomputeCycleOrderIndex]
  generalize updateDoi (unmarkDiscontinuous m (ph.doi : ℕ)) (ph.doi : ℕ) = n
    at hindex hcount hcnt hslots hout hprev ⊢
  by_cases hlt : m.nextDoi ph < intMax - 2 * doiCycle
  · rw [if_pos hlt, if_pos hlt, sub_zero]
    refine ⟨Computed.start ⟨fun i => ?_, hslots, hprev, hcnt, .inl ?_, hcount⟩ ?_ _, rfl, rfl⟩
    · rw [hindex]
      simp only [orderIndex_sub_zero, Option.map_id']
    · rw [hout, sub_zero, ite_self]
    · rw [hout, sub_zero, ite_self]
  · rw [if_neg hlt, if_neg hlt]
    dsimp only
    rw [hcnt, hout]
    refine ⟨Computed.start ?_ rfl _, rfl, rfl⟩
    refine ⟨fun i => ?_, hslots, hprev, rfl, .inl rfl, fun hc => ?_⟩
    · rw [Avs2dFrameMgr.orderIndex, orderIndex_wrapFrame]
      exact congrArg _ (hindex i)
    · have hsame : ∀ w : ℤ, (fun i => (wrapFrame w (n.dpb i)).slotIdx) = n.slotOf := fun w => by
        funext i
        rw [wrapFrame]
        split_ifs <;> rfl
      refine ⟨fun i hi => ?_, ?_⟩
      · have hi' : (n.dpb i).slotIdx = none := (congrFun (hsame _) i).symm.trans hi
        dsimp only
        rw [wrapFrame, if_pos hi']
        exact (hcount hc).blank i hi'
      · have hused := (hcount hc).used
        rw [← hsame] at hused
        exact hused

/-- The indices stay in order when all are at least what is taken off. -/
theorem Ordered.compute {offset : ℤ} (h : Ordered offset m) (vsh : Avs2dSeqHeader)
    (hindex : ∀ i x, m.orderIndex i = some x → m.wrapOi ph ≤ x.doi ∧ m.wrapOi ph ≤ x.poi)
    (hout : m.outputPoi ≠ noVal → m.wrapOi ph ≤ m.outputPoi) (hwrap : 0 ≤ m.wrapOi ph)
    (hpoi : 0 ≤ (computeFrameOrderIndex m vsh ph).2.2 ∧
      (computeFrameOrderIndex m vsh ph).2.2 < intMax) :
    Ordered (offset - m.wrapOi ph) (computeFrameOrderIndex m vsh ph).1 := by
  obtain ⟨hcomp, -, -⟩ := computeFrameOrderIndex_spec m vsh ph
  have hcases : ∀ i x, (computeFrameOrderIndex m vsh ph).1.orderIndex i = some x →
      ∃ y, m.orderIndex i = some y ∧ x = y.sub (m.wrapOi ph) := fun i x hx => by
    rw [hcomp.index, map_eq_some_iff] at hx
    obtain ⟨y, hy, rfl⟩ := hx
    exact ⟨y, hy, rfl⟩
  refine ⟨fun i x hx => ?_, fun i x hx => ?_, fun i j x y hx hy hpos => ?_, fun i x hx => ?_, ?_⟩
  · obtain ⟨y, hy, rfl⟩ := hcases i x hx
    have hposition := h.position i y hy
    simp only [OrderIndex.sub]
    omega
  · obtain ⟨y, hy, rfl⟩ := hcases i x hx
    exact (h.below i y hy).trans_eq hcomp.slots.symm
  · obtain ⟨x', hx', rfl⟩ := hcases i x hx
    obtain ⟨y', hy', rfl⟩ := hcases j y hy
    exact h.distinct i j x' y' hx' hy' hpos
  · obtain ⟨y, hy, rfl⟩ := hcases i x hx
    have hrange := h.range i y hy
    have hle := hindex i y hy
    simp only [OrderIndex.sub]
    omega
  · have hrange := h.output
    rcases hcomp.outputPoi with hsame | ⟨-, hfirst⟩
    · rw [hsame]
      split_ifs with hno
      · have hle := hout hno
        omega
      · exact .inl (not_not.1 hno)
    · rw [hfirst]
      exact .inr hpoi

end Compute

/-! ## A picture -/

/-- The coded index of a picture goes up by one, or the picture is the first one after a
    restart. -/
def Call.Continues (m : Avs2dFrameMgr) : Call → Prop
  | .insert _ ph _ => m.prevDoi = noVal ∨ (ph.doi : ℕ) = (m.prevDoi + 1).tmod doiCycle
  | _ => True

/-- What is taken off when the indices come near `INT_MAX`, for the first time. -/
def lastWrap : ℤ := intMax + 1 - 4 * doiCycle

/-- No index is far behind. -/
structure Recent (m : Avs2dFrameMgr) : Prop where
  index : ∀ i x, m.orderIndex i = some x → lastWrap ≤ x.doi ∧ lastWrap ≤ x.poi
  output : m.outputPoi ≠ noVal → lastWrap ≤ m.outputPoi

/-- The indices of a picture are in range: the delay of the sequence header is not too large, and
    the cycles are taken off once at most, from pictures that are not far behind. -/
def Call.Steady (m : Avs2dFrameMgr) : Call → Prop
  | .insert vsh ph _ =>
    (vsh.lowDelay ∨ (vsh.pictureReorderDelay : ℕ) ≤ m.nextDoi ph + (ph.pictureOutputDelay : ℕ)) ∧
      m.nextDoi ph ≤ intMax - 2 * doiCycle ∧ (m.nextDoi ph = intMax - 2 * doiCycle → Recent m)
  | _ => True

/-- The invariant of the runs: the indices are in order, and the next one follows. -/
structure InStep (offset : ℤ) (m : Avs2dFrameMgr) : Prop where
  ordered : Ordered offset m
  counted : Counted m
  wraps : 0 ≤ m.trWrapCnt
  start : m.prevDoi = noVal →
    m.trWrapCnt = 0 ∧ m.outputPoi = noVal ∧ ∀ i, m.orderIndex i = none
  run : m.prevDoi ≠ noVal → 0 ≤ m.prevDoi ∧ m.prevDoi < doiCycle ∧
    (m.fullDoi + 1 = m.slots + offset ∨ intMax - 2 * doiCycle ≤ m.fullDoi)

section Picture

variable {offset : ℤ} {m : Avs2dFrameMgr} {vsh : Avs2dSeqHeader} {ph : Avs2dPicHeader}
  {rps : Avs2dRps}

theorem nextDoi_of_first (hprev : m.prevDoi = noVal) (hwrap : m.trWrapCnt = 0) :
    m.nextDoi ph = (ph.doi : ℕ) := by
  rw [Avs2dFrameMgr.nextDoi, Avs2dFrameMgr.fullDoi, updateDoi, hprev, hwrap]
  dsimp only [noVal, doiCycle]
  split_ifs <;> omega

theorem nextDoi_of_next (hprev : 0 ≤ m.prevDoi ∧ m.prevDoi < doiCycle)
    (hdoi : ((ph.doi : ℕ) : ℤ) = (m.prevDoi + 1).tmod doiCycle) :
    m.nextDoi ph = m.fullDoi + 1 := by
  rw [Int.tmod_eq_emod_of_nonneg (by omega)] at hdoi
  rw [Avs2dFrameMgr.nextDoi, Avs2dFrameMgr.fullDoi, updateDoi, Avs2dFrameMgr.fullDoi]
  dsimp only [doiCycle] at hprev hdoi ⊢
  split_ifs <;> omega

/-- The index of the next picture is its place with an offset, that of the frames. -/
theorem InStep.next (h : InStep offset m) (hcont : (Call.insert vsh ph rps).Continues m)
    (hle : m.nextDoi ph ≤ intMax - 2 * doiCycle) :
    0 ≤ m.nextDoi ph ∧ unmarkDiscontinuous m (ph.doi : ℕ) = m ∧
      ∃ offset', m.nextDoi ph = m.slots + offset' ∧ Ordered offset' m := by
  by_cases hprev : m.prevDoi = noVal
  · obtain ⟨hwrap, hout, hnone⟩ := h.start hprev
    refine ⟨?_, ?_, (ph.doi : ℕ) - m.slots, ?_, .of_empty hnone hout _⟩
    · rw [nextDoi_of_first hprev hwrap]
      omega
    · rw [unmarkDiscontinuous, if_neg fun hno => hno.1 hout]
    · rw [nextDoi_of_first hprev hwrap]
      omega
  · obtain ⟨hlow, hhigh, hfull⟩ := h.run hprev
    have hdoi := hcont.resolve_left hprev
    have hnext := nextDoi_of_next ⟨hlow, hhigh⟩ hdoi
    have hwraps := h.wraps
    refine ⟨?_, ?_, offset, ?_, h.ordered⟩
    · rw [hnext, Avs2dFrameMgr.fullDoi]
      dsimp only [doiCycle]
      omega
    · rw [unmarkDiscontinuous, if_neg fun hno => hno.2 hdoi]
    · rw [hnext] at hle ⊢
      omega

/-- What is taken off is none of the last cycles. -/
theorem wrapOi_cases (hle : m.nextDoi ph ≤ intMax - 2 * doiCycle) :
    m.wrapOi ph = 0 ∧ m.nextDoi ph < intMax - 2 * doiCycle ∨
      m.wrapOi ph = lastWrap ∧ m.nextDoi ph = intMax - 2 * doiCycle := by
  rw [Avs2dFrameMgr.wrapOi]
  split_ifs with hlt
  · exact .inl ⟨rfl, hlt⟩
  · have heq : m.nextDoi ph = intMax - 2 * doiCycle := le_antisymm hle (not_lt.1 hlt)
    refine .inr ⟨?_, heq⟩
    have hnext : m.nextDoi ph =
        (ph.doi : ℕ) + (updateDoi m (ph.doi : ℕ)).trWrapCnt * doiCycle := rfl
    have hdoi := ph.doi.isLt
    rw [hnext] at heq
    dsimp only [lastWrap, intMax, doiCycle] at heq ⊢
    omega

/-- The order of a steady picture. -/
theorem InStep.compute (h : InStep offset m) (hcont : (Call.insert vsh ph rps).Continues m)
    (hsteady : (Call.insert vsh ph rps).Steady m) :
    ∃ offset', (computeFrameOrderIndex m vsh ph).2.1 = m.slots + offset' ∧
      Ordered offset' (computeFrameOrderIndex m vsh ph).1 ∧
      (0 ≤ (computeFrameOrderIndex m vsh ph).2.1 ∧
        (computeFrameOrderIndex m vsh ph).2.1 < intMax) ∧
      (0 ≤ (computeFrameOrderIndex m vsh ph).2.2 ∧
        (computeFrameOrderIndex m vsh ph).2.2 < intMax) ∧
      (m.outputPoi ≠ noVal → m.wrapOi ph ≤ m.outputPoi) := by
  obtain ⟨hdelay, hle, hrecent⟩ := hsteady
  obtain ⟨hnonneg, -, offset', hposition, hordered⟩ := h.next hcont hle
  obtain ⟨-, hdoi, hpoi⟩ := computeFrameOrderIndex_spec m vsh ph
  have hpoi' : 0 ≤ (computeFrameOrderIndex m vsh ph).2.2 ∧
      (computeFrameOrderIndex m vsh ph).2.2 < intMax := by
    have hout := ph.pictureOutputDelay.isLt
    have hreorder := vsh.pictureReorderDelay.isLt
    rw [hpoi, poiOf]
    rcases wrapOi_cases hle with ⟨hw, hlt⟩ | ⟨hw, heq⟩
    · rw [hw]
      dsimp only [intMax, doiCycle] at hlt ⊢
      split_ifs with hlow
      · omega
      · have hle' := hdelay.resolve_left hlow
        omega
    · rw [hw, heq]
      dsimp only [lastWrap, intMax, doiCycle]
      split_ifs <;> omega
  have hall : (∀ i x, m.orderIndex i = some x → m.wrapOi ph ≤ x.doi ∧ m.wrapOi ph ≤ x.poi) ∧
      (m.outputPoi ≠ noVal → m.wrapOi ph ≤ m.outputPoi) ∧ 0 ≤ m.wrapOi ph := by
    rcases wrapOi_cases hle with ⟨hw, -⟩ | ⟨hw, heq⟩
    · rw [hw]
      refine ⟨fun i x hx => ?_, fun hno => ?_, le_rfl⟩
      · exact ⟨(hordered.range i x hx).1.1, (hordered.range i x hx).2.1⟩
      · exact (hordered.output.resolve_left hno).1
    · rw [hw]
      exact ⟨(hrecent heq).index, (hrecent heq).output, by decide⟩
  refine ⟨offset' - m.wrapOi ph, ?_, hordered.compute vsh hall.1 hall.2.1 hall.2.2 hpoi', ?_,
    hpoi', hall.2.1⟩
  · rw [hdoi]
    omega
  · rw [hdoi]
    rcases wrapOi_cases hle with ⟨hw, hlt⟩ | ⟨hw, heq⟩
    · rw [hw]
      dsimp only [intMax, doiCycle] at hlt ⊢
      omega
    · rw [hw, heq]
      decide

end Picture

/-- The frame that a picture gets. -/
def Avs2dFrameMgr.cur (m : Avs2dFrameMgr) (vsh : Avs2dSeqHeader) (ph : Avs2dPicHeader) :
    Fin maxDpbSize :=
  dpbGetOneFrame (m.room vsh ph) vsh (computeFrameOrderIndex m vsh ph).2.2

/-- The buffer when a picture has its frame. -/
def Avs2dFrameMgr.placed (m : Avs2dFrameMgr) (vsh : Avs2dSeqHeader) (ph : Avs2dPicHeader)
    (rps : Avs2dRps) : Avs2dFrameMgr :=
  let r := computeFrameOrderIndex m vsh ph
  let cur := m.cur vsh ph
  let m := dpbAllocFrame (m.room vsh ph) cur ph r.2.1 r.2.2 rps
  { m with
    curFrm := some cur
    codecUse := m.codecUse ∪ (m.dpb cur).slotIdx.toList.toFinset }

/-- What is promised of a picture: the discontinuity test leaves the frames as they are; what is
    taken off is the same for all indices; the index of the picture is its place with the offset
    of the frames; no index is below zero or too large; and each reference is found that many
    places back. -/
structure InsertExact (m : Avs2dFrameMgr) (vsh : Avs2dSeqHeader) (ph : Avs2dPicHeader)
    (rps : Avs2dRps) : Prop where
  marks : unmarkDiscontinuous m (ph.doi : ℕ) = m
  rebased : ∃ w, (computeFrameOrderIndex m vsh ph).2.1 = m.nextDoi ph - w ∧
    (∀ i, (computeFrameOrderIndex m vsh ph).1.orderIndex i =
      (m.orderIndex i).map fun x => x.sub w) ∧
    (m.outputPoi ≠ noVal → (computeFrameOrderIndex m vsh ph).1.outputPoi = m.outputPoi - w)
  position : ∃ offset : ℤ, (computeFrameOrderIndex m vsh ph).2.1 = m.slots + offset ∧
    ∀ i x, (computeFrameOrderIndex m vsh ph).1.orderIndex i = some x → x.doi = x.pos + offset
  next : 0 ≤ m.nextDoi ph ∧ m.nextDoi ph ≤ intMax
  doi : 0 ≤ (computeFrameOrderIndex m vsh ph).2.1 ∧ (computeFrameOrderIndex m vsh ph).2.1 ≤ intMax
  poi : 0 ≤ (computeFrameOrderIndex m vsh ph).2.2 ∧ (computeFrameOrderIndex m vsh ph).2.2 ≤ intMax
  refPic : ∀ l, l <+: rps.refPic →
    FindsExactly (l.foldl (setRefStep (m.cur vsh ph)) (m.placed vsh ph rps)) (m.cur vsh ph) m.slots
  removePic : ∀ l, l <+: rps.removePic →
    FindsExactly (l.foldl (removeRefStep (m.cur vsh ph)) (updateSceneRef
      (dpbSetFrameRefs (m.placed vsh ph rps) (m.cur vsh ph) rps) (m.cur vsh ph)))
      (m.cur vsh ph) m.slots

theorem avs2dDpbInsert_eq (m : Avs2dFrameMgr) (vsh : Avs2dSeqHeader) (ph : Avs2dPicHeader)
    (rps : Avs2dRps) : avs2dDpbInsert m vsh ph rps =
      dpbUpdateRefs (dpbSetFrameRefs (m.placed vsh ph rps) (m.cur vsh ph) rps) rps := by
  rw [avs2dDpbInsert, Avs2dFrameMgr.placed, Avs2dFrameMgr.cur, Avs2dFrameMgr.room]

section Insert

variable {offset : ℤ} {m : Avs2dFrameMgr} {vsh : Avs2dSeqHeader} {ph : Avs2dPicHeader}
  {rps : Avs2dRps}

theorem kept_room (h : Counted m) (vsh : Avs2dSeqHeader) (ph : Avs2dPicHeader) :
    Kept (computeFrameOrderIndex m vsh ph).1 (m.room vsh ph) :=
  kept_makeRoom ((computeFrameOrderIndex_spec m vsh ph).1.counted h) _ _

/-- What a picture leaves behind, in any case. -/
structure Inserted (m : Avs2dFrameMgr) (vsh : Avs2dSeqHeader) (ph : Avs2dPicHeader)
    (m' : Avs2dFrameMgr) : Prop where
  counted : Counted m'
  cur : m'.orderIndex (m.cur vsh ph) = some ⟨m.slots, (computeFrameOrderIndex m vsh ph).2.1,
    (computeFrameOrderIndex m vsh ph).2.2⟩
  slots : m'.slots = m.slots + 1
  prevDoi : m'.prevDoi = (ph.doi : ℕ)
  trWrapCnt : m'.trWrapCnt = (updateDoi m (ph.doi : ℕ)).trWrapCnt

theorem Inserted.kept {m' m'' : Avs2dFrameMgr} (h : Inserted m vsh ph m') (hk : Kept m' m'')
    (hcur : m''.orderIndex (m.cur vsh ph) = m'.orderIndex (m.cur vsh ph)) :
    Inserted m vsh ph m'' where
  counted := hk.counted
  cur := hcur.trans h.cur
  slots := hk.slots.trans h.slots
  prevDoi := hk.prevDoi.trans h.prevDoi
  trWrapCnt := hk.trWrapCnt.trans h.trWrapCnt

theorem inserted_placed (h : Counted m) (vsh : Avs2dSeqHeader) (ph : Avs2dPicHeader)
    (rps : Avs2dRps) : Inserted m vsh ph (m.placed vsh ph rps) := by
  obtain ⟨hcomp, -, -⟩ := computeFrameOrderIndex_spec m vsh ph
  have hroom := kept_room h vsh ph
  have hcounted := hroom.counted.alloc (m.cur vsh ph) ph (computeFrameOrderIndex m vsh ph).2.1
    (computeFrameOrderIndex m vsh ph).2.2 rps
  have hslots : (m.room vsh ph).slots = m.slots := hroom.slots.trans hcomp.slots
  exact {
    counted := ⟨hcounted.blank, hcounted.used⟩
    cur := by
      refine (congrFun (orderIndex_setFrame (m.room vsh ph) (m.cur vsh ph) _) _).trans ?_
      rw [update_self, Avs2dFrame.orderIndex, hslots]
      rfl
    slots := congrArg (· + 1) hslots
    prevDoi := hroom.prevDoi.trans hcomp.prevDoi
    trWrapCnt := hroom.trWrapCnt.trans hcomp.trWrapCnt }

/-- The marks of the references, for some of them. -/
theorem kept_refs (h : Counted m) (vsh : Avs2dSeqHeader) (ph : Avs2dPicHeader) (rps : Avs2dRps)
    (l l' : List ℕ) :
    Kept (m.placed vsh ph rps) (l.foldl (setRefStep (m.cur vsh ph)) (m.placed vsh ph rps)) ∧
    Kept (m.placed vsh ph rps) (l'.foldl (removeRefStep (m.cur vsh ph)) (updateSceneRef
      (l.foldl (setRefStep (m.cur vsh ph)) (m.placed vsh ph rps)) (m.cur vsh ph))) ∧
    (l.foldl (setRefStep (m.cur vsh ph)) (m.placed vsh ph rps)).orderIndex =
      (m.placed vsh ph rps).orderIndex ∧
    (l'.foldl (removeRefStep (m.cur vsh ph)) (updateSceneRef
      (l.foldl (setRefStep (m.cur vsh ph)) (m.placed vsh ph rps)) (m.cur vsh ph))).orderIndex =
      (m.placed vsh ph rps).orderIndex := by
  have hindex : ∀ {m m' : Avs2dFrameMgr}, m'.dpb = m.dpb → m'.orderIndex = m.orderIndex :=
    fun hdpb => funext fun i => congrArg Avs2dFrame.orderIndex (congrFun hdpb i)
  obtain ⟨hset, hsetDpb⟩ :=
    kept_setFrameRefs (inserted_placed h vsh ph rps).counted (m.cur vsh ph) l
  obtain ⟨hscene, hsceneDpb⟩ := kept_updateSceneRef hset.counted (m.cur vsh ph)
  obtain ⟨hremove, hremoveIndex⟩ := kept_removeRefs hscene.counted (m.cur vsh ph) l'
  exact ⟨hset, hset.trans (hscene.trans hremove), hindex hsetDpb,
    hremoveIndex.trans (hindex (hsceneDpb.trans hsetDpb))⟩

theorem dpbUpdateRefs_placed (m : Avs2dFrameMgr) (vsh : Avs2dSeqHeader) (ph : Avs2dPicHeader)
    (rps : Avs2dRps) :
    avs2dDpbInsert m vsh ph rps = rps.removePic.foldl (removeRefStep (m.cur vsh ph))
      (updateSceneRef (rps.refPic.foldl (setRefStep (m.cur vsh ph)) (m.placed vsh ph rps))
        (m.cur vsh ph)) := by
  have hcur : (dpbSetFrameRefs (m.placed vsh ph rps) (m.cur vsh ph) rps).curFrm =
      some (m.cur vsh ph) := (still_setFrameRefs _ _ rps).curFrm
  rw [avs2dDpbInsert_eq, dpbUpdateRefs, hcur]
  rfl

theorem inserted_insert (h : Counted m) (vsh : Avs2dSeqHeader) (ph : Avs2dPicHeader)
    (rps : Avs2dRps) : Inserted m vsh ph (avs2dDpbInsert m vsh ph rps) := by
  obtain ⟨-, hkept, -, hindex⟩ := kept_refs h vsh ph rps rps.refPic rps.removePic
  rw [dpbUpdateRefs_placed]
  exact (inserted_placed h vsh ph rps).kept hkept (congrFun hindex _)

theorem Ordered.placed {offset : ℤ} (hc : Counted m)
    (hordered : Ordered offset (computeFrameOrderIndex m vsh ph).1)
    (hposition : (computeFrameOrderIndex m vsh ph).2.1 = m.slots + offset)
    (hdoi : 0 ≤ (computeFrameOrderIndex m vsh ph).2.1 ∧
      (computeFrameOrderIndex m vsh ph).2.1 < intMax)
    (hpoi : 0 ≤ (computeFrameOrderIndex m vsh ph).2.2 ∧
      (computeFrameOrderIndex m vsh ph).2.2 < intMax) (rps : Avs2dRps) :
    Ordered offset (m.placed vsh ph rps) := by
  obtain ⟨hcomp, -, -⟩ := computeFrameOrderIndex_spec m vsh ph
  have hroom := kept_room hc vsh ph
  have hslots : (m.room vsh ph).slots = m.slots := hroom.slots.trans hcomp.slots
  rw [← hslots] at hposition
  have halloc := (hordered.kept hroom).alloc (m.cur vsh ph) ph rps (hposition ▸ hdoi) hpoi
  rw [← hposition] at halloc
  exact ⟨halloc.position, halloc.below, halloc.distinct, halloc.range, halloc.output⟩

/-- A steady picture is exact, and the next one can follow. -/
theorem InStep.insert (h : InStep offset m) (hcont : (Call.insert vsh ph rps).Continues m)
    (hsteady : (Call.insert vsh ph rps).Steady m) :
    InsertExact m vsh ph rps ∧ ∃ offset', InStep offset' (avs2dDpbInsert m vsh ph rps) := by
  obtain ⟨hcomp, hindexDoi, -⟩ := computeFrameOrderIndex_spec m vsh ph
  obtain ⟨hnonneg, hmarks, o, hnext, -⟩ := h.next hcont hsteady.2.1
  obtain ⟨offset', hposition, hordered, hdoi, hpoi, hout⟩ := h.compute hcont hsteady
  have hplaced := hordered.placed h.counted hposition hdoi hpoi rps
  have hinserted := inserted_placed h.counted vsh ph rps
  have hrefs := kept_refs h.counted vsh ph rps
  refine ⟨?_, offset', ?_⟩
  · exact {
      marks := hmarks
      rebased := by
        refine ⟨m.wrapOi ph, hindexDoi, hcomp.index, fun hno => ?_⟩
        rcases hcomp.outputPoi with hsame | ⟨hfirst | hfirst, -⟩
        · rw [hsame, if_pos hno]
        · exact absurd hfirst hno
        · have hle := hout hno
          dsimp only [noVal] at hfirst
          omega
      position := ⟨offset', hposition, hordered.position⟩
      next := ⟨hnonneg, hsteady.2.1.trans (by decide)⟩
      doi := ⟨hdoi.1, hdoi.2.le⟩
      poi := ⟨hpoi.1, hpoi.2.le⟩
      refPic := fun l _ => by
        obtain ⟨hkept, -, hindex, -⟩ := hrefs l []
        exact (hplaced.kept hkept).findsExactly ((congrFun hindex _).trans hinserted.cur)
      removePic := fun l _ => by
        obtain ⟨-, hkept, -, hindex⟩ := hrefs rps.refPic l
        exact (hplaced.kept hkept).findsExactly ((congrFun hindex _).trans hinserted.cur) }
  · have hafter := inserted_insert h.counted vsh ph rps
    obtain ⟨-, hkept, -, -⟩ := hrefs rps.refPic rps.removePic
    have hfull : (avs2dDpbInsert m vsh ph rps).fullDoi = m.nextDoi ph := by
      rw [Avs2dFrameMgr.fullDoi, hafter.prevDoi, hafter.trWrapCnt]
      rfl
    have hprev := hafter.prevDoi
    have hlt := ph.doi.isLt
    refine ⟨?_, hafter.counted, ?_, fun hno => ?_, fun _ => ⟨?_, ?_, ?_⟩⟩
    · rw [dpbUpdateRefs_placed]
      exact hplaced.kept hkept
    · have hwraps := h.wraps
      rw [hafter.trWrapCnt, updateDoi]
      dsimp only
      split_ifs <;> omega
    · rw [hprev] at hno
      dsimp only [noVal] at hno
      omega
    · rw [hprev]
      omega
    · rw [hprev]
      dsimp only [doiCycle]
      omega
    · rw [hfull, hafter.slots]
      rcases wrapOi_cases hsteady.2.1 with ⟨hw, -⟩ | ⟨-, heq⟩
      · refine .inl ?_
        rw [hw, sub_zero, hposition] at hindexDoi
        omega
      · exact .inr heq.ge

end Insert

/-! ## Runs -/

/-- What is promised of the buffer: the decoding order index of each frame is its place with the
    same offset, and no index is below zero or too large. -/
structure Indexed (m : Avs2dFrameMgr) : Prop where
  position : ∃ offset : ℤ, ∀ i x, m.orderIndex i = some x → x.doi = x.pos + offset
  range : ∀ i x, m.orderIndex i = some x → (0 ≤ x.doi ∧ x.doi ≤ intMax) ∧ 0 ≤ x.poi ∧ x.poi ≤ intMax
  output : m.outputPoi = noVal ∨ 0 ≤ m.outputPoi ∧ m.outputPoi ≤ intMax

variable {m : Avs2dFrameMgr}

theorem Ordered.indexed {offset : ℤ} (h : Ordered offset m) : Indexed m where
  position := ⟨offset, h.position⟩
  range i x hx := by
    have hrange := h.range i x hx
    omega
  output := by
    have hrange := h.output
    omega

/-- The buffer at a restart. -/
theorem InStep.restart (hc : Counted m) (hnone : ∀ i, m.orderIndex i = none)
    (hprev : m.prevDoi = noVal) (hout : m.outputPoi = noVal) (hwrap : m.trWrapCnt = 0) :
    InStep 0 m where
  ordered := .of_empty hnone hout 0
  counted := hc
  wraps := hwrap.ge
  start _ := ⟨hwrap, hout, hnone⟩
  run hno := absurd hprev hno

theorem inStep_init : InStep 0 {} :=
  .restart ⟨fun _ _ => rfl, (@holds_init False).used.ge⟩ (fun _ => rfl) rfl rfl rfl

/-- Frames are removed between the pictures. -/
theorem InStep.kept {offset : ℤ} {m m' : Avs2dFrameMgr} (h : InStep offset m) (hk : Kept m m')
    (hout : m'.outputPoi = m.outputPoi) : InStep offset m' where
  ordered := h.ordered.kept hk
  counted := hk.counted
  wraps := hk.trWrapCnt ▸ h.wraps
  start hno := by
    obtain ⟨hwrap, hno, hnone⟩ := h.start (hk.prevDoi ▸ hno)
    refine ⟨hk.trWrapCnt.trans hwrap, hout.trans hno, fun i => ?_⟩
    exact (hk.frame i).elim id fun hsame => hsame.trans (hnone i)
  run hno := by
    have hrun := h.run (hk.prevDoi ▸ hno)
    rw [Avs2dFrameMgr.fullDoi, hk.prevDoi, hk.trWrapCnt, hk.slots]
    exact hrun

theorem InStep.call {offset : ℤ} (h : InStep offset m) {c : Call}
    (hcont : c.Continues m) (hsteady : c.Steady m) : ∃ offset', InStep offset' (call m c) := by
  cases c with
  | insert vsh ph rps => exact (h.insert hcont hsteady).2
  | dpbFlush poi =>
    obtain ⟨hcounted, hnone⟩ := h.ordered.flush h.counted poi
    exact ⟨0, .restart hcounted hnone rfl rfl rfl⟩
  | flush poi =>
    have hkept := kept_removeUnusedFrame h.counted poi
    exact ⟨offset, h.kept hkept (still_removeUnusedFrame m poi).outputPoi⟩

/-- In a run of pictures whose coded index goes up by one, with restarts, and whose indices are in
    range, the indices of the frames and of every next picture are exact. -/
theorem doi_exact
    (hm : (calls.guarded fun m c _ => c.Continues m ∧ c.Steady m).Reachable m) :
    Indexed m ∧ ∀ vsh ph rps, (Call.insert vsh ph rps).Continues m →
      (Call.insert vsh ph rps).Steady m → InsertExact m vsh ph rps := by
  have hstep : ∃ offset, InStep offset m := by
    refine Machine.Reachable.invariant (P := fun m => ∃ offset, InStep offset m) ?_ ?_ hm
    · rintro _ rfl
      exact ⟨0, inStep_init⟩
    · rintro m c _ - ⟨offset, h⟩ ⟨rfl, hcont, hsteady⟩
      exact h.call hcont hsteady
  obtain ⟨offset, h⟩ := hstep
  exact ⟨h.ordered.indexed, fun vsh ph rps hcont hsteady => (h.insert hcont hsteady).1⟩

/-- The second picture, which refers to the first one. -/
theorem doi_exact_second :
    InsertExact (call {} (.insert ⟨true, 0, false⟩ ⟨.i, 0, 0⟩ { referedByOthers := true }))
      ⟨true, 0, false⟩ ⟨.p, 1, 0⟩ { refPic := [1] } := by
  refine (doi_exact (.step (a := .insert _ _ _) (.init rfl) ⟨rfl, .inl rfl, ?_⟩)).2 _ _ _
    (.inr (by decide)) ?_
  · exact ⟨.inl rfl, by decide, fun h => absurd h (by decide)⟩
  · exact ⟨.inl rfl, by decide, fun h => absurd h (by decide)⟩

/-! ## A long run -/

/-- Pictures of type I, each with the next index. -/
def longRun : ℕ → Avs2dFrameMgr
  | 0 => {}
  | k + 1 => avs2dDpbInsert (longRun k) ⟨true, 0, false⟩ ⟨.i, Fin.ofNat 256 k, 0⟩
    { referedByOthers := true }

/-- The time of a long run. -/
structure AtTime (k : ℕ) (m : Avs2dFrameMgr) : Prop where
  counted : Counted m
  slots : m.slots = k
  time : k = 0 ∧ m.prevDoi = noVal ∧ m.trWrapCnt = 0 ∨
    0 ≤ m.prevDoi ∧ m.prevDoi < doiCycle ∧ m.fullDoi + 1 = k

theorem AtTime.continues {k : ℕ} (h : AtTime k m) (vsh : Avs2dSeqHeader)
    (rps : Avs2dRps) : m.nextDoi ⟨.i, Fin.ofNat 256 k, 0⟩ = k ∧
      (Call.insert vsh ⟨.i, Fin.ofNat 256 k, 0⟩ rps).Continues m := by
  have hval : ((Fin.ofNat 256 k : ℕ) : ℤ) = (k : ℤ) % doiCycle := by
    rw [Fin.val_ofNat]
    rfl
  rcases h.time with ⟨rfl, hprev, hwrap⟩ | ⟨hlow, hhigh, hfull⟩
  · exact ⟨nextDoi_of_first hprev hwrap, .inl hprev⟩
  · have hdoi : ((Fin.ofNat 256 k : ℕ) : ℤ) = (m.prevDoi + 1).tmod doiCycle := by
      rw [hval, Int.tmod_eq_emod_of_nonneg (by omega), ← hfull, Avs2dFrameMgr.fullDoi]
      dsimp only [doiCycle]
      omega
    exact ⟨(nextDoi_of_next ⟨hlow, hhigh⟩ hdoi).trans hfull, .inr hdoi⟩

theorem atTime_longRun (k : ℕ) : AtTime k (longRun k) := by
  induction k with
  | zero => exact ⟨inStep_init.counted, rfl, .inl ⟨rfl, rfl, rfl⟩⟩
  | succ k ih =>
    have hafter := inserted_insert ih.counted ⟨true, 0, false⟩ ⟨.i, Fin.ofNat 256 k, 0⟩
      { referedByOthers := true }
    have hnext := (ih.continues ⟨true, 0, false⟩ {}).1
    have hfull : (longRun (k + 1)).fullDoi = k := by
      rw [longRun, Avs2dFrameMgr.fullDoi, hafter.prevDoi, hafter.trWrapCnt]
      exact hnext
    have hlt := (Fin.ofNat 256 k).isLt
    refine ⟨hafter.counted, ?_, .inr ⟨?_, ?_, ?_⟩⟩
    · rw [longRun, hafter.slots, ih.slots]
    · rw [longRun, hafter.prevDoi]
      exact Int.natCast_nonneg _
    · rw [longRun, hafter.prevDoi]
      exact Int.ofNat_lt.2 hlt
    · rw [hfull]
      rfl

theorem reachable_longRun (k : ℕ) :
    (calls.guarded fun m c _ => c.Continues m).Reachable (longRun k) := by
  induction k with
  | zero => exact .init rfl
  | succ k ih =>
    exact .step (a := .insert _ _ _) ih ⟨rfl, ((atTime_longRun k).continues _ _).2⟩

/-- The picture after the one for which cycles are taken off has not the offset of its frame. -/
theorem longRun_lost {k : ℕ} (hk : (k : ℤ) = intMax - 2 * doiCycle) :
    ¬InsertExact (longRun (k + 1)) ⟨true, 0, false⟩ ⟨.i, Fin.ofNat 256 (k + 1), 0⟩
      { referedByOthers := true } := by
  intro hexact
  have htime := atTime_longRun k
  have hnext := (htime.continues ⟨true, 0, false⟩ {}).1
  have hnext' := ((atTime_longRun (k + 1)).continues ⟨true, 0, false⟩ {}).1
  have hslots' := (atTime_longRun (k + 1)).slots
  -- the index of the picture before is its place less the last wrap
  have hdoi := (computeFrameOrderIndex_spec (longRun k) ⟨true, 0, false⟩
    ⟨.i, Fin.ofNat 256 k, 0⟩).2.1
  have hwrap := wrapOi_cases (hnext.le.trans_eq hk)
  rw [hnext] at hdoi hwrap
  obtain ⟨hw, -⟩ := hwrap.resolve_left fun hlt => hlt.2.ne hk
  have hcur := (inserted_insert htime.counted ⟨true, 0, false⟩ ⟨.i, Fin.ofNat 256 k, 0⟩
    { referedByOthers := true }).cur
  rw [hdoi, hw, htime.slots] at hcur
  -- the same is taken off that frame and the picture, which has no last wrap yet
  obtain ⟨hcomp, hdoi', -⟩ := computeFrameOrderIndex_spec (longRun (k + 1)) ⟨true, 0, false⟩
    ⟨.i, Fin.ofNat 256 (k + 1), 0⟩
  obtain ⟨offset, hposition, hframe⟩ := hexact.position
  have hindex := hcomp.index ((longRun k).cur ⟨true, 0, false⟩ ⟨.i, Fin.ofNat 256 k, 0⟩)
  rw [longRun, hcur, map_some] at hindex
  have hbefore := hframe _ _ hindex
  rw [hdoi', hnext', hslots'] at hposition
  simp only [OrderIndex.sub, longRun] at hbefore hposition
  have hpos : lastWrap ≠ 0 := by decide
  push_cast at hposition
  omega

/-- Pictures whose coded index goes up by one, until cycles are taken off a second time. And a
    first picture whose output order index is below zero. -/
theorem doi_lost :
    (¬∀ m, (calls.guarded fun m c _ => c.Continues m).Reachable m →
      Indexed m ∧ ∀ vsh ph rps, (Call.insert vsh ph rps).Continues m →
        InsertExact m vsh ph rps) ∧
    ¬Indexed (call {} (.insert ⟨false, 5, false⟩ ⟨.i, 0, 0⟩ {})) := by
  constructor
  · intro hall
    obtain ⟨k, hk⟩ : ∃ k : ℕ, (k : ℤ) = intMax - 2 * doiCycle := ⟨2147483135, rfl⟩
    have hcont := ((atTime_longRun (k + 1)).continues ⟨true, 0, false⟩
      { referedByOthers := true }).2
    exact longRun_lost hk ((hall _ (reachable_longRun (k + 1))).2 _ _ _ hcont)
  · intro h
    have hrange := h.range 0 ⟨0, 0, -5⟩ (orderIndex_eq_some.2 (by decide))
    exact absurd hrange.2.1 (by decide)

end Libmpp.Avs2d
