import Libmpp.EncRef.Frame
import Libmpp.Lib.Machine
import Libmpp.Lib.RefStore
import Libmpp.Lib.SlotArray

/-!
# The invariant of the virtual buffer

What the tables of `EncVirtualCpb` have to do with each other. The abstract view
of the slots is a `RefStore`: the short-term slots hold its short-term frames,
the long-term slots its long-term frames, each packed at the front
(`HoldsStore`). Storing a frame pushes or puts it (`HoldsStore.store`), a clean-up
empties the store, and the rest of a frame leaves the tables alone
(`getCpbFrm_tables`).

The manager is a state machine (`refsMachine`), whose labels are the calls of its
interface (`RefsOp`). In its reachable states, as long as a gop has at most
`65536` frames, the slots are packed, the short-term frames are in order, and the
tables by long-term index and by mode agree with the slots (`reachable_cpbInv`).
-/

namespace Libmpp.EncRef

open List Option

/-- The short-term slot `i`. -/
def EncVirtualCpb.stRef (cpb : EncVirtualCpb) (i : Fin maxCpbStFrm) : EncFrmStatus :=
  cpb.cpbRefs.get (i.castAdd maxCpbLtFrm)

/-- The long-term slot `i`. -/
def EncVirtualCpb.ltRef (cpb : EncVirtualCpb) (i : Fin maxCpbLtFrm) : EncFrmStatus :=
  cpb.cpbRefs.get (i.natAdd maxCpbStFrm)

/-! ## The slots as a store -/

/-- The slots and the two tables copied from them hold the frames of `s`. -/
structure HoldsStore (cpb : EncVirtualCpb) (s : RefStore EncFrmStatus) : Prop where
  stRef : ∀ i, cpb.stRef i = s.st[i.val]?.getD 0
  ltRef : ∀ i, cpb.ltRef i = s.lt[i.val]?.getD 0
  length_st : s.st.length ≤ maxCpbStFrm
  isSt : ∀ frm ∈ s.st, frm.isSt
  isLt : ∀ frm ∈ s.lt, frm.isLt
  nodup_lt : (s.lt.map EncFrmStatus.ltIdx).Nodup
  ltIdxRefs : ∀ k, cpb.ltIdxRefs.get k = (s.lt.find? fun frm => frm.ltIdx = k).getD 0
  prevStRef : cpb.modeRefs.get MppEncRefMode.toPrevStRef.idx = s.st.head?.getD 0

/-- The short-term frames are in order, all before frame `n`. -/
structure InOrder (s : RefStore EncFrmStatus) (n : ℕ) : Prop where
  sorted : s.st.Pairwise fun f g => g.seqIdx < f.seqIdx
  lt : ∀ frm ∈ s.st, frm.seqIdx.val < n

theorem isSt_valid {frm : EncFrmStatus} (h : frm.isSt) : frm.valid := by
  simp only [EncFrmStatus.isSt, Bool.and_eq_true] at h
  exact h.1.1

theorem isLt_valid {frm : EncFrmStatus} (h : frm.isLt) : frm.valid := by
  simp only [EncFrmStatus.isLt, Bool.and_eq_true] at h
  exact h.1.1

variable {n : ℕ}

/-- The first index a predicate holds at. -/
theorem find?_finRange_eq_some {p : Fin n → Bool} {i : Fin n} (hi : p i) (hlt : ∀ j < i, ¬p j) :
    (List.finRange n).find? p = some i := by
  rw [find?_eq_some_iff_getElem]
  refine ⟨hi, i, by simp, by simp, fun j hj => ?_⟩
  simpa using hlt ⟨j, hj.trans i.isLt⟩ hj

namespace HoldsStore

variable {cpb : EncVirtualCpb} {s : RefStore EncFrmStatus}

/-- Frames with distinct long-term indices fit the long-term slots. -/
theorem length_lt (h : HoldsStore cpb s) : s.lt.length ≤ maxCpbLtFrm := by
  have := h.nodup_lt.length_le_card
  simpa using this

/-- With an index to spare, there is a free slot. -/
theorem length_lt_lt (h : HoldsStore cpb s) {k : Fin 16} (hk : k ∉ s.lt.map EncFrmStatus.ltIdx) :
    s.lt.length < maxCpbLtFrm := by
  have := (nodup_cons.2 ⟨hk, h.nodup_lt⟩).length_le_card
  simpa using this

/-- A long-term slot is occupied as far as the store goes. -/
theorem ltRef_valid_iff (h : HoldsStore cpb s) (i : Fin maxCpbLtFrm) :
    (cpb.ltRef i).valid ↔ i.val < s.lt.length := by
  rw [h.ltRef]
  by_cases hi : i.val < s.lt.length
  · simp [hi, isLt_valid (h.isLt _ (getElem_mem hi))]
  · simp [hi]

/-- A short-term slot is occupied as far as the store goes. -/
theorem stRef_valid_iff (h : HoldsStore cpb s) (i : Fin maxCpbStFrm) :
    (cpb.stRef i).valid ↔ i.val < s.st.length := by
  rw [h.stRef]
  by_cases hi : i.val < s.st.length
  · simp [hi, isSt_valid (h.isSt _ (getElem_mem hi))]
  · simp [hi]

theorem ltRef_of_lt (h : HoldsStore cpb s) {i : ℕ} (hi : i < s.lt.length) (hi' : i < maxCpbLtFrm) :
    cpb.ltRef ⟨i, hi'⟩ = s.lt[i] := by
  rw [h.ltRef]
  simp [hi]

theorem stRef_of_lt (h : HoldsStore cpb s) {i : ℕ} (hi : i < s.st.length) (hi' : i < maxCpbStFrm) :
    cpb.stRef ⟨i, hi'⟩ = s.st[i] := by
  rw [h.stRef]
  simp [hi]

/-- The slot that takes a long-term frame: where its index is found, or the
    first free one. -/
theorem ltStoreSlot_eq (h : HoldsStore cpb s) (k : Fin 16) :
    ∃ hi : s.lt.findIdx (fun frm => frm.ltIdx = k) < maxCpbLtFrm,
      ltStoreSlot cpb.cpbRefs k = some ⟨_, hi⟩ := by
  set i := s.lt.findIdx fun frm => frm.ltIdx = k with hidef
  have hbefore : ∀ j (hj : j < s.lt.length), j < i → s.lt[j].ltIdx ≠ k := fun j _ hji => by
    simpa using not_of_lt_findIdx hji
  have hlt : i < maxCpbLtFrm := by
    by_cases hi : i < s.lt.length
    · exact hi.trans_le h.length_lt
    · have hnot : k ∉ s.lt.map EncFrmStatus.ltIdx := by
        intro hk
        obtain ⟨frm, hfrm, rfl⟩ := mem_map.1 hk
        exact hi (findIdx_lt_length_of_exists ⟨frm, hfrm, by simp⟩)
      exact (findIdx_le_length.trans_lt (h.length_lt_lt hnot))
  refine ⟨hlt, find?_finRange_eq_some ?_ fun j hj => ?_⟩
  · change (!(cpb.ltRef ⟨i, hlt⟩).valid || (cpb.ltRef ⟨i, hlt⟩).ltIdx == k)
    by_cases hi : i < s.lt.length
    · rw [h.ltRef_of_lt hi]
      have hk := @List.findIdx_getElem _ (fun frm => decide (frm.ltIdx = k)) s.lt hi
      simp_all
    · have : ¬(cpb.ltRef ⟨i, hlt⟩).valid := (h.ltRef_valid_iff _).not.2 hi
      simp [this]
  · change ¬(!(cpb.ltRef j).valid || (cpb.ltRef j).ltIdx == k)
    have hji : j.val < i := hj
    have hj' : j.val < s.lt.length := hji.trans_le findIdx_le_length
    have hv := (h.ltRef_valid_iff j).2 hj'
    have := hbefore _ hj' hji
    rw [← h.ltRef_of_lt hj' j.isLt] at this
    simp [hv, this]

end HoldsStore

/-! ## Storing a frame -/

/-- What storing a frame does to the store. -/
def storeFrm (frm : EncFrmStatus) (s : RefStore EncFrmStatus) : RefStore EncFrmStatus :=
  if frm.isNonRef then s
  else if frm.isLtRef then s.putLt EncFrmStatus.ltIdx frm
  else s.pushSt maxCpbStFrm frm

variable {frm : EncFrmStatus}

theorem storeRefToCpb_of_nonRef (h : frm.isNonRef) (cpb : EncVirtualCpb) :
    storeRefToCpb cpb frm = cpb := by
  simp [storeRefToCpb, h]

/-- The modes that storing the frame `frm` updates. -/
def ModeOf (frm : EncFrmStatus) (mode : MppEncRefMode) : Prop :=
  mode = .toPrevRefFrm ∨ (mode = .toPrevIntra ∧ frm.isIntra) ∨
    (mode = .toPrevStRef ∧ frm.isLtRef = false) ∨ (mode = .toPrevLtRef ∧ frm.isLtRef)

/-- What storing a reference frame does to the tables. -/
structure Stored (cpb cpb' : EncVirtualCpb) (frm : EncFrmStatus) : Prop where
  info : cpb'.info = cpb.info
  ltCnter : cpb'.ltCnter = cpb.ltCnter
  seqIdx : cpb'.seqIdx = cpb.seqIdx
  frmIdx : cpb'.frmIdx = cpb.frmIdx
  stTidRefs : ∀ k, cpb'.stTidRefs.get k = if k = frm.temporalId then frm else cpb.stTidRefs.get k
  ltIdxRefs : ∀ k, cpb'.ltIdxRefs.get k =
    if frm.isLtRef ∧ k = frm.ltIdx then frm else cpb.ltIdxRefs.get k
  modeRefs_of : ∀ mode, ModeOf frm mode → cpb'.modeRefs.get mode.idx = frm
  modeRefs_of_not : ∀ mode, ¬ModeOf frm mode →
    cpb'.modeRefs.get mode.idx = cpb.modeRefs.get mode.idx

theorem MppEncRefMode.idx_inj {mode mode' : MppEncRefMode} :
    mode.idx = mode'.idx ↔ mode = mode' := by
  constructor
  · cases mode <;> cases mode' <;> decide
  · rintro rfl
    rfl

theorem storeRefToCpb_stored (h : frm.isNonRef = false)
    (cpb : EncVirtualCpb) : Stored cpb (storeRefToCpb cpb frm) frm := by
  unfold storeRefToCpb
  simp only [h, Bool.false_eq_true, ↓reduceIte]
  by_cases hl : frm.isLtRef <;> by_cases hi : frm.isIntra <;>
    simp only [hl, hi, ↓reduceIte, Bool.false_eq_true]
  -- of the slot that takes a long-term frame, the other tables know nothing
  all_goals try split
  all_goals
    refine ⟨rfl, rfl, rfl, rfl, fun k => get_set_fin _ _ _ _, fun k => ?_, fun mode hm => ?_,
      fun mode hm => ?_⟩
    · simp only [hl, get_set_fin, true_and, Bool.false_eq_true, false_and, ↓reduceIte]
    · simp only [get_set_fin, MppEncRefMode.idx_inj, ModeOf, hl, hi] at hm ⊢
      split_ifs <;> simp_all
    · simp only [get_set_fin, MppEncRefMode.idx_inj, ModeOf, hl, hi] at hm ⊢
      split_ifs <;> simp_all

/-- Storing a frame leaves the counters alone. -/
theorem storeRefToCpb_counters (cpb : EncVirtualCpb) (frm : EncFrmStatus) :
    (storeRefToCpb cpb frm).info = cpb.info ∧ (storeRefToCpb cpb frm).ltCnter = cpb.ltCnter ∧
      (storeRefToCpb cpb frm).seqIdx = cpb.seqIdx ∧
      (storeRefToCpb cpb frm).frmIdx = cpb.frmIdx := by
  by_cases hn : frm.isNonRef
  · rw [storeRefToCpb_of_nonRef hn]
    exact ⟨rfl, rfl, rfl, rfl⟩
  · have h := storeRefToCpb_stored (Bool.eq_false_iff.2 hn) cpb
    exact ⟨h.info, h.ltCnter, h.seqIdx, h.frmIdx⟩

theorem cpbRefs_storeRefToCpb_of_st (h : frm.isNonRef = false)
    (hl : frm.isLtRef = false) (cpb : EncVirtualCpb) :
    (storeRefToCpb cpb frm).cpbRefs = shiftSt cpb.cpbRefs frm := by
  simp only [storeRefToCpb, h, hl, Bool.false_eq_true, ↓reduceIte]
  split_ifs <;> rfl

theorem cpbRefs_storeRefToCpb_of_lt (h : frm.isNonRef = false)
    (hl : frm.isLtRef) {cpb : EncVirtualCpb} {i : Fin maxCpbLtFrm}
    (hslot : ltStoreSlot cpb.cpbRefs frm.ltIdx = some i) :
    (storeRefToCpb cpb frm).cpbRefs = cpb.cpbRefs.set (i.natAdd maxCpbStFrm) frm := by
  simp only [storeRefToCpb, h, hl, Bool.false_eq_true, ↓reduceIte]
  split_ifs <;> simp only [hslot]

theorem stRef_shiftSt (cpb : EncVirtualCpb) (frm : EncFrmStatus) (i : Fin maxCpbStFrm) :
    (shiftSt cpb.cpbRefs frm).get (i.castAdd maxCpbLtFrm) =
      if i.val = 0 then frm else cpb.stRef ⟨i.val - 1, by omega⟩ := by
  have hi : i.val < 16 := i.isLt
  rw [shiftSt, Vector.get_eq_getElem, Vector.getElem_ofFn]
  simp only [Fin.val_castAdd, hi, ↓reduceIte]
  rfl

theorem ltRef_shiftSt (cpb : EncVirtualCpb) (frm : EncFrmStatus) (i : Fin maxCpbLtFrm) :
    (shiftSt cpb.cpbRefs frm).get (i.natAdd maxCpbStFrm) = cpb.ltRef i := by
  rw [shiftSt, Vector.get_eq_getElem, Vector.getElem_ofFn]
  have h₀ : ¬(i.natAdd maxCpbStFrm).val = 0 := by simp
  have h₁ : ¬(i.natAdd maxCpbStFrm).val < maxCpbStFrm := by simp
  rw [if_neg h₀, if_neg h₁]
  rfl

namespace HoldsStore

variable {cpb : EncVirtualCpb} {s : RefStore EncFrmStatus} {frm : EncFrmStatus}

/-- Storing a short-term frame pushes it. -/
theorem store_st (h : HoldsStore cpb s) (hst : frm.isSt) :
    HoldsStore (storeRefToCpb cpb frm) (s.pushSt maxCpbStFrm frm) := by
  have hst' := hst
  simp only [EncFrmStatus.isSt, Bool.and_eq_true, Bool.not_eq_true'] at hst'
  obtain ⟨⟨-, hn⟩, hl⟩ := hst'
  have hrefs := cpbRefs_storeRefToCpb_of_st hn hl cpb
  have hstored := storeRefToCpb_stored hn cpb
  constructor
  · intro i
    rw [EncVirtualCpb.stRef, hrefs, stRef_shiftSt, h.stRef]
    obtain ⟨i, hi⟩ := i
    cases i with
    | zero => simp [RefStore.pushSt]
    | succ i =>
      have hi' : i < 15 := Nat.lt_of_succ_lt_succ hi
      simp [RefStore.pushSt, hi']
  · intro i
    rw [EncVirtualCpb.ltRef, hrefs, ltRef_shiftSt, h.ltRef]
    rfl
  · exact RefStore.length_pushSt_le _ _ _
  · intro g hg
    rcases RefStore.mem_pushSt_st hg with rfl | hg
    · exact hst
    · exact h.isSt g hg
  · exact h.isLt
  · exact h.nodup_lt
  · intro k
    rw [hstored.ltIdxRefs, hl, h.ltIdxRefs]
    rfl
  · rw [hstored.modeRefs_of _ (.inr (.inr (.inl ⟨rfl, hl⟩)))]
    rfl

/-- Storing a long-term frame puts it. -/
theorem store_lt (h : HoldsStore cpb s) (hlt : frm.isLt) :
    HoldsStore (storeRefToCpb cpb frm) (s.putLt EncFrmStatus.ltIdx frm) := by
  have hlt' := hlt
  simp only [EncFrmStatus.isLt, Bool.and_eq_true, Bool.not_eq_true'] at hlt'
  obtain ⟨⟨-, hn⟩, hl⟩ := hlt'
  obtain ⟨hi, hslot⟩ := h.ltStoreSlot_eq frm.ltIdx
  have hrefs := cpbRefs_storeRefToCpb_of_lt hn hl hslot
  have hstored := storeRefToCpb_stored hn cpb
  constructor
  · intro i
    rw [EncVirtualCpb.stRef, hrefs, get_set_fin, if_neg, ← EncVirtualCpb.stRef, h.stRef]
    · rfl
    · intro he
      have hval := congrArg Fin.val he
      have := i.isLt
      simp only [Fin.val_castAdd, Fin.val_natAdd] at hval
      omega
  · intro i
    rw [EncVirtualCpb.ltRef, hrefs, get_set_fin, ← EncVirtualCpb.ltRef, h.ltRef, RefStore.putLt,
      RefStore.getElem?_putKey]
    simp only [Fin.ext_iff, Fin.val_natAdd, Nat.add_left_cancel_iff]
    split_ifs <;> rfl
  · exact h.length_st
  · exact h.isSt
  · intro g hg
    rcases RefStore.mem_putKey hg with rfl | hg
    · exact hlt
    · exact h.isLt g hg
  · exact RefStore.nodup_map_putKey h.nodup_lt
  · intro k
    rw [hstored.ltIdxRefs, h.ltIdxRefs, RefStore.putLt]
    by_cases hk : k = frm.ltIdx
    · rw [if_pos ⟨hl, hk⟩, hk, RefStore.find?_putKey_self]
      rfl
    · rw [if_neg (fun h => hk h.2), RefStore.find?_putKey_of_ne hk]
  · rw [hstored.modeRefs_of_not _ (by simp [ModeOf, hl]), h.prevStRef]
    rfl

/-- Storing a frame keeps the tables together. -/
theorem store (h : HoldsStore cpb s) (hv : frm.valid) :
    HoldsStore (storeRefToCpb cpb frm) (storeFrm frm s) := by
  unfold storeFrm
  split_ifs with hn hl
  · rwa [storeRefToCpb_of_nonRef hn]
  · exact h.store_lt (by simp [EncFrmStatus.isLt, hv, hn, hl])
  · exact h.store_st (by simp [EncFrmStatus.isSt, hv, hn, hl])

end HoldsStore

/-! ## The rest of a frame -/

variable {s : RefStore EncFrmStatus} {frm : EncFrmStatus}

/-- The tables alone matter. -/
theorem HoldsStore.congr {cpb cpb' : EncVirtualCpb}
    (h : HoldsStore cpb s) (hcpb : cpb'.cpbRefs = cpb.cpbRefs)
    (hmode : cpb'.modeRefs = cpb.modeRefs) (hlt : cpb'.ltIdxRefs = cpb.ltIdxRefs) :
    HoldsStore cpb' s := by
  constructor
  · intro i
    rw [EncVirtualCpb.stRef, hcpb]
    exact h.stRef i
  · intro i
    rw [EncVirtualCpb.ltRef, hcpb]
    exact h.ltRef i
  · exact h.length_st
  · exact h.isSt
  · exact h.isLt
  · exact h.nodup_lt
  · intro k
    rw [hlt]
    exact h.ltIdxRefs k
  · rw [hmode]
    exact h.prevStRef

theorem HoldsStore.of_sameTables {cpb cpb' : EncVirtualCpb}
    (h : HoldsStore cpb s) (ht : SameTables cpb cpb') : HoldsStore cpb' s :=
  h.congr ht.cpbRefs ht.modeRefs ht.ltIdxRefs

/-- Emptied tables hold the empty store. -/
theorem holdsStore_empty {cpb : EncVirtualCpb} (hcpb : cpb.cpbRefs = .replicate _ 0)
    (hmode : cpb.modeRefs = .replicate _ 0) (hlt : cpb.ltIdxRefs = .replicate _ 0) :
    HoldsStore cpb .empty := by
  constructor
  · intro i
    rw [EncVirtualCpb.stRef, hcpb, Vector.get_replicate]
    rfl
  · intro i
    rw [EncVirtualCpb.ltRef, hcpb, Vector.get_replicate]
    rfl
  · exact Nat.zero_le _
  · exact fun _ h => absurd h not_mem_nil
  · exact fun _ h => absurd h not_mem_nil
  · exact nodup_nil
  · intro k
    rw [hlt, Vector.get_replicate]
    rfl
  · rw [hmode, Vector.get_replicate]
    rfl

/-- The store a frame starts from: empty after a restart. -/
def startStore (p : MppEncRefsImpl) (s : RefStore EncFrmStatus) : RefStore EncFrmStatus :=
  if Restarts p then .empty else s

variable {p p₁ : MppEncRefsImpl}

/-- Before the frame is stored, the tables hold what the restart has left. -/
theorem getCpbFrm_tables (h : HoldsStore p.cpb s)
    (hfrm : FrmStep p p₁ frm) : HoldsStore p₁.cpb (startStore p s) := by
  refine HoldsStore.of_sameTables ?_ hfrm.tables
  unfold startStore
  split_ifs with hr
  · obtain ⟨n, hn⟩ := updateGop_of_restarts hr
    rw [hn]
    exact holdsStore_empty rfl rfl rfl
  · exact h.of_sameTables (updateGop_of_not_restarts hr).1

variable {p' : MppEncRefsImpl} {st' : EncCpbStatus} {ref : Option EncFrmStatus}

/-- The store after a frame. -/
theorem GetCpbStep.holdsStore
    (h : GetCpbStep p p' st' p₁ frm ref) (hs : HoldsStore p.cpb s) :
    HoldsStore p'.cpb (storeFrm st'.curr (startStore p s)) := by
  have hfrm := getCpbFrm_spec h.frm_eq
  obtain ⟨refr, rfl⟩ := h.cpb
  refine HoldsStore.store ?_ ?_
  · exact (getCpbFrm_tables hs hfrm).of_sameTables ⟨rfl, rfl, rfl, rfl, rfl⟩
  · obtain ⟨_, hcurr⟩ := h.curr
    rw [hcurr]
    exact hfrm.valid

/-- The number of the frame in the gop, as long as it fits its field. -/
theorem FrmStep.val_seqIdx (h : FrmStep p p₁ frm) (hlt : p₁.cpb.seqIdx ≤ 65536)
    : frm.seqIdx.val + 1 = p₁.cpb.seqIdx := by
  have hseq := h.seqIdx_cpb
  rw [h.seqIdx, hseq, truncTo]
  have : (updateGop p).cpb.seqIdx < 65536 := by omega
  simp only [Fin.val_ofNat]
  omega

/-- A frame leaves the stashed buffer alone. -/
theorem GetCpbStep.cpbStash (h : GetCpbStep p p' st' p₁ frm ref) :
    p'.cpbStash = p.cpbStash := by
  obtain ⟨refr, rfl⟩ := h.cpb
  exact (getCpbFrm_spec h.frm_eq).setup.cpbStash

/-- Storing a frame leaves the place in the gop alone. -/
theorem GetCpbStep.seqIdx (h : GetCpbStep p p' st' p₁ frm ref) :
    p'.cpb.seqIdx = p₁.cpb.seqIdx := by
  obtain ⟨refr, rfl⟩ := h.cpb
  exact (storeRefToCpb_counters _ _).2.2.1

/-- Frames stay in order when a frame with the next number is stored. -/
theorem InOrder.store (h : InOrder s n) (hn : n ≤ frm.seqIdx.val) :
    InOrder (storeFrm frm s) (frm.seqIdx.val + 1) := by
  have hweak : ∀ g ∈ s.st, g.seqIdx.val < frm.seqIdx.val := fun g hg => (h.lt g hg).trans_le hn
  unfold storeFrm
  split_ifs
  · exact ⟨h.sorted, fun g hg => (hweak g hg).trans (Nat.lt_succ_self _)⟩
  · exact ⟨h.sorted, fun g hg => (hweak g hg).trans (Nat.lt_succ_self _)⟩
  · refine ⟨RefStore.pairwise_pushSt h.sorted hweak, fun g hg => ?_⟩
    rcases RefStore.mem_pushSt_st hg with rfl | hg
    · exact Nat.lt_succ_self _
    · exact (hweak g hg).trans (Nat.lt_succ_self _)

/-- In a gop that fits the field, a frame keeps the store in order. -/
theorem GetCpbStep.inOrder (h : GetCpbStep p p' st' p₁ frm ref)
    (hs : InOrder s p.cpb.seqIdx) (hlt : p'.cpb.seqIdx ≤ 65536)
    : InOrder (storeFrm st'.curr (startStore p s)) p'.cpb.seqIdx := by
  have hfrm := getCpbFrm_spec h.frm_eq
  rw [h.seqIdx] at hlt ⊢
  have hval := hfrm.val_seqIdx hlt
  obtain ⟨_, hcurr⟩ := h.curr
  have hcurr' : st'.curr.seqIdx = frm.seqIdx := by rw [hcurr]
  rw [← hval, ← hcurr']
  refine InOrder.store (n := (updateGop p).cpb.seqIdx) ?_ ?_
  · unfold startStore
    split_ifs with hr
    · exact ⟨List.Pairwise.nil, fun _ h => absurd h not_mem_nil⟩
    · rw [(updateGop_of_not_restarts hr).2.1]
      exact hs
  · have := hfrm.seqIdx_cpb
    rw [hcurr']
    omega

/-! ## The manager as a state machine -/

/-- The calls of the manager's interface that change it. -/
inductive RefsOp
  | setCfg (refCfg : Option MppEncRefCfgImpl)
  | setUsrCfg (cfg : MppEncRefFrmUsrCfg)
  | setRcIgop (igop : ℤ)
  | setRefreshLength (len : ℤ)
  | forceRecon (forceRecon : Bool)
  | stash
  | rollback
  | getCpb (status : EncCpbStatus)
  | getCpbPass1 (status : EncCpbStatus)

/-- The manager after a call. -/
def refsStep (p : MppEncRefsImpl) : RefsOp → Option MppEncRefsImpl
  | .setCfg refCfg => mppEncRefsSetCfg p refCfg
  | .setUsrCfg cfg => some (mppEncRefsSetUsrCfg p cfg)
  | .setRcIgop igop => some (mppEncRefsSetRcIgop p igop)
  | .setRefreshLength len => some (mppEncRefsSetRefreshLength p len)
  | .forceRecon forceRecon => some (mppEncRefsForceRecon p forceRecon)
  | .stash => some (mppEncRefsStash p)
  | .rollback => some (mppEncRefsRollback p)
  | .getCpb status => (mppEncRefsGetCpb p status).map Prod.fst
  | .getCpbPass1 status => (mppEncRefsGetCpbPass1 p status).map Prod.fst

/-- The manager as a state machine. -/
def refsMachine : Machine MppEncRefsImpl RefsOp := .ofPartial mppEncRefsInit refsStep

/-- The gop fits the field that numbers its frames. -/
def ShortGop (_ : MppEncRefsImpl) (_ : RefsOp) (p' : MppEncRefsImpl) : Prop :=
  p'.cpb.seqIdx ≤ 65536
  deriving Decidable

/-- Installing a configuration keeps the slots, or clears them. -/
theorem mppEncRefsSetCfg_spec {refCfg : Option MppEncRefCfgImpl}
    (h : mppEncRefsSetCfg p refCfg = some p') :
    p'.cpbStash = p.cpbStash ∧ p'.usrCfg = p.usrCfg ∧
      ∃ cpb : EncVirtualCpb, (cpb = p.cpb ∨ cpb = 0) ∧
        p'.cpb.cpbRefs = cpb.cpbRefs ∧ p'.cpb.modeRefs = cpb.modeRefs ∧
        p'.cpb.ltIdxRefs = cpb.ltIdxRefs ∧ p'.cpb.stTidRefs = cpb.stTidRefs ∧
        p'.cpb.seqIdx = cpb.seqIdx := by
  unfold mppEncRefsSetCfg at h
  dsimp only at h
  split_ifs at h
  · obtain rfl := some.inj h
    exact ⟨rfl, rfl, _, .inl rfl, rfl, rfl, rfl, rfl, rfl⟩
  · obtain rfl := some.inj h
    exact ⟨rfl, rfl, _, .inr rfl, rfl, rfl, rfl, rfl, rfl⟩

/-- What a call preserves of the buffer, it preserves of the buffer and the stashed
    one: only a new configuration and a frame are to be looked at. -/
theorem refsStep_cpb {P : EncVirtualCpb → Prop} {op : RefsOp} (h : P p.cpb ∧ P p.cpbStash)
    (hstep : refsStep p op = some p') (hlist0 : ∀ cpb refr, P cpb → P { cpb with list0 := refr })
    (hset : ∀ refCfg, op = .setCfg refCfg → mppEncRefsSetCfg p refCfg = some p' → P p'.cpb)
    (hget : ∀ st st', op = .getCpb st → mppEncRefsGetCpb p st = some (p', st') → P p'.cpb) :
    P p'.cpb ∧ P p'.cpbStash := by
  obtain ⟨hcpb, hstash⟩ := h
  cases op with
  | setCfg refCfg =>
    refine ⟨hset _ rfl hstep, ?_⟩
    rw [(mppEncRefsSetCfg_spec hstep).1]
    exact hstash
  | setUsrCfg cfg =>
    obtain rfl := some.inj hstep
    exact ⟨hcpb, hstash⟩
  | setRcIgop igop =>
    obtain rfl := some.inj hstep
    unfold mppEncRefsSetRcIgop
    split_ifs <;> exact ⟨hcpb, hstash⟩
  | setRefreshLength len =>
    obtain rfl := some.inj hstep
    unfold mppEncRefsSetRefreshLength
    split_ifs <;> exact ⟨hcpb, hstash⟩
  | forceRecon forceRecon =>
    obtain rfl := some.inj hstep
    exact ⟨hcpb, hstash⟩
  | stash =>
    obtain rfl := some.inj hstep
    exact ⟨hcpb, hcpb⟩
  | rollback =>
    obtain rfl := some.inj hstep
    exact ⟨hstash, hstash⟩
  | getCpb status =>
    obtain ⟨⟨p', st'⟩, hgetCpb, rfl⟩ := map_eq_some_iff.1 hstep
    obtain ⟨p₁, frm, ref, h⟩ := mppEncRefsGetCpb_spec hgetCpb
    refine ⟨hget _ _ rfl hgetCpb, ?_⟩
    rw [h.cpbStash]
    exact hstash
  | getCpbPass1 status =>
    obtain ⟨⟨p', st'⟩, hgetCpb, rfl⟩ := map_eq_some_iff.1 hstep
    obtain ⟨refr, rfl⟩ := mppEncRefsGetCpbPass1_spec hgetCpb
    exact ⟨hlist0 _ _ hcpb, hstash⟩

/-- The buffer holds a store in order. -/
def OrderedStore (cpb : EncVirtualCpb) : Prop := ∃ s, HoldsStore cpb s ∧ InOrder s cpb.seqIdx

theorem holdsStore_zero : HoldsStore 0 .empty := holdsStore_empty rfl rfl rfl

theorem inOrder_empty (n : ℕ) : InOrder .empty n :=
  ⟨List.Pairwise.nil, fun _ h => absurd h not_mem_nil⟩

theorem orderedStore_zero : OrderedStore 0 := ⟨.empty, holdsStore_zero, inOrder_empty _⟩

/-- Every call keeps the buffers holding stores in order. -/
theorem orderedStore_step {op : RefsOp} (h : OrderedStore p.cpb ∧ OrderedStore p.cpbStash)
    (hstep : refsStep p op = some p') (hgop : ShortGop p op p') :
    OrderedStore p'.cpb ∧ OrderedStore p'.cpbStash := by
  refine refsStep_cpb h hstep ?_ ?_ ?_
  · rintro cpb refr ⟨s, hs, ho⟩
    exact ⟨s, hs.congr rfl rfl rfl, ho⟩
  · rintro refCfg - hset
    obtain ⟨-, -, cpb, hcpb, h₁, h₂, h₃, -, h₄⟩ := mppEncRefsSetCfg_spec hset
    have hcpb : OrderedStore cpb := by
      rcases hcpb with rfl | rfl
      · exact h.1
      · exact orderedStore_zero
    obtain ⟨s, hs, ho⟩ := hcpb
    exact ⟨s, hs.congr h₁ h₂ h₃, by rwa [h₄]⟩
  · rintro st st' - hget
    obtain ⟨s, hs, ho⟩ := h.1
    obtain ⟨p₁, frm, ref, hframe⟩ := mppEncRefsGetCpb_spec hget
    exact ⟨_, hframe.holdsStore hs, hframe.inOrder ho hgop⟩

theorem reachable_orderedStore (h : (refsMachine.guarded ShortGop).Reachable p) :
    OrderedStore p.cpb ∧ OrderedStore p.cpbStash := by
  refine Machine.Reachable.invariant (P := fun p => OrderedStore p.cpb ∧ OrderedStore p.cpbStash)
    ?_ ?_ h
  · rintro _ rfl
    exact ⟨orderedStore_zero, orderedStore_zero⟩
  · rintro p op p' - hp ⟨hstep, hgop⟩
    exact orderedStore_step hp hstep hgop

/-! ## The invariant, slot by slot -/

/-- The tables of the virtual buffer are well formed. -/
structure CpbInv (cpb : EncVirtualCpb) : Prop where
  /-- Short-term slots hold short-term frames only. -/
  st_isSt : ∀ i, (cpb.stRef i).valid → (cpb.stRef i).isSt
  st_packed : ∀ i j, i < j → (cpb.stRef j).valid → (cpb.stRef i).valid
  st_free : ∀ i, ¬(cpb.stRef i).valid → cpb.stRef i = 0
  /-- The most recent frame comes first. -/
  st_sorted : ∀ i j, i < j → (cpb.stRef j).valid → (cpb.stRef j).seqIdx < (cpb.stRef i).seqIdx
  /-- Long-term slots hold long-term frames only. -/
  lt_isLt : ∀ i, (cpb.ltRef i).valid → (cpb.ltRef i).isLt
  lt_packed : ∀ i j, i < j → (cpb.ltRef j).valid → (cpb.ltRef i).valid
  lt_free : ∀ i, ¬(cpb.ltRef i).valid → cpb.ltRef i = 0
  lt_distinct : ∀ i j, (cpb.ltRef i).valid → (cpb.ltRef j).valid →
    (cpb.ltRef i).ltIdx = (cpb.ltRef j).ltIdx → i = j
  /-- The table by long-term index agrees with the slots. -/
  ltIdxRefs : ∀ k, (cpb.ltIdxRefs.get k).valid →
    (cpb.ltIdxRefs.get k).ltIdx = k ∧ ∃ i, cpb.ltRef i = cpb.ltIdxRefs.get k
  /-- The previous short-term reference is the first short-term slot. -/
  prevStRef : (cpb.modeRefs.get MppEncRefMode.toPrevStRef.idx).valid →
    cpb.modeRefs.get MppEncRefMode.toPrevStRef.idx = cpb.stRef 0

theorem HoldsStore.cpbInv {cpb : EncVirtualCpb} (h : HoldsStore cpb s)
    (ho : InOrder s n) : CpbInv cpb where
  st_isSt i hi := by
    have hi := (h.stRef_valid_iff i).1 hi
    rw [h.stRef_of_lt hi i.isLt]
    exact h.isSt _ (getElem_mem hi)
  st_packed i j hij hj := by
    have hj := (h.stRef_valid_iff j).1 hj
    exact (h.stRef_valid_iff i).2 (lt_trans hij hj)
  st_free i hi := by
    have hi := (h.stRef_valid_iff i).not.1 hi
    rw [h.stRef, getElem?_eq_none (not_lt.1 hi)]
    rfl
  st_sorted i j hij hj := by
    have hj := (h.stRef_valid_iff j).1 hj
    have hi : i.val < s.st.length := lt_trans hij hj
    rw [h.stRef_of_lt hi i.isLt, h.stRef_of_lt hj j.isLt]
    exact pairwise_iff_getElem.1 ho.sorted _ _ hi hj hij
  lt_isLt i hi := by
    have hi := (h.ltRef_valid_iff i).1 hi
    rw [h.ltRef_of_lt hi i.isLt]
    exact h.isLt _ (getElem_mem hi)
  lt_packed i j hij hj := by
    have hj := (h.ltRef_valid_iff j).1 hj
    exact (h.ltRef_valid_iff i).2 (lt_trans hij hj)
  lt_free i hi := by
    have hi := (h.ltRef_valid_iff i).not.1 hi
    rw [h.ltRef, getElem?_eq_none (not_lt.1 hi)]
    rfl
  lt_distinct i j hi hj hij := by
    have hi := (h.ltRef_valid_iff i).1 hi
    have hj := (h.ltRef_valid_iff j).1 hj
    rw [h.ltRef_of_lt hi i.isLt, h.ltRef_of_lt hj j.isLt] at hij
    have := (nodup_iff_injective_getElem.1 h.nodup_lt).eq_iff
      (a := ⟨i, by simpa using hi⟩) (b := ⟨j, by simpa using hj⟩)
    simp only [getElem_map, hij, Fin.mk.injEq, true_iff] at this
    exact Fin.ext this
  ltIdxRefs k hk := by
    rw [h.ltIdxRefs] at hk ⊢
    cases hf : s.lt.find? fun frm => frm.ltIdx = k with
    | none => simp [hf] at hk
    | some frm =>
      obtain ⟨i, hi, rfl⟩ := mem_iff_getElem.1 (mem_of_find?_eq_some hf)
      have hi' : i < maxCpbLtFrm := hi.trans_le h.length_lt
      refine ⟨by simpa using find?_some hf, ⟨i, hi'⟩, ?_⟩
      rw [h.ltRef_of_lt hi]
      rfl
  prevStRef _ := by
    rw [h.prevStRef, h.stRef, head?_eq_getElem?]
    rfl

/-- In every reachable state of a gop that fits the field, the tables are well
    formed, in the buffer and in the stashed one. -/
theorem reachable_cpbInv {p : MppEncRefsImpl} (h : (refsMachine.guarded ShortGop).Reachable p) :
    CpbInv p.cpb ∧ CpbInv p.cpbStash := by
  obtain ⟨⟨s, hs, ho⟩, ⟨s', hs', ho'⟩⟩ := reachable_orderedStore h
  exact ⟨hs.cpbInv ho, hs'.cpbInv ho'⟩

/-- The default configuration, and then two frames of which the second is forced to
    be long-term. -/
def cpbInvOps : List RefsOp :=
  [.setCfg none, .getCpb default,
    .setUsrCfg { (0 : MppEncRefFrmUsrCfg) with forceFlag := encForceLtRefIdx, forceLtIdx := 3 },
    .getCpb default]

/-- Both halves of the buffer are in use after these calls. -/
theorem reachable_cpbInv_ops :
    ∃ p, Machine.run refsStep ShortGop mppEncRefsInit cpbInvOps = some p ∧
      (p.cpb.stRef 0).valid ∧ (p.cpb.ltRef 0).valid ∧ CpbInv p.cpb ∧ CpbInv p.cpbStash := by
  have hrun : ((Machine.run refsStep ShortGop mppEncRefsInit cpbInvOps).any fun p =>
      (p.cpb.stRef 0).valid && (p.cpb.ltRef 0).valid) = true := by
    decide
  obtain ⟨p, hp, hv⟩ := (any_eq_true _ _).1 hrun
  rw [Bool.and_eq_true] at hv
  have hp' : Machine.run refsStep ShortGop mppEncRefsInit cpbInvOps = some p := hp
  exact ⟨p, hp', hv.1, hv.2, reachable_cpbInv (Machine.Reachable.run (.init rfl) hp')⟩

end Libmpp.EncRef
