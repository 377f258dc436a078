import Libmpp.EncRef.Accept

/-!
# The snapshots of the buffer

For every frame the buffer is saved twice, before the frame and after it, to an
array of `MAX_CPB_REFS = 8` frames (`SavePoint`). What is written are the first
`maxLtCnt` long-term frames and then short-term frames up to `dpbSize` in all
(`saveCpbStatus_eq`). It is what the buffer holds, and fits, exactly when
(`snapshotOk_iff`)

* the buffer holds no more long-term frames than were announced, and
* the frames that `dpbSize` leaves room for are at most eight.

Neither is checked in the source. Nine long-term entries break the second
(`snapshot_overflow`), and a long-term frame the user forces can break the first.
-/

namespace Libmpp.EncRef

open Option

/-- The frames in the short-term slots, the most recent first. -/
def heldSt (cpb : EncVirtualCpb) : List EncFrmStatus :=
  ((List.finRange maxCpbStFrm).map cpb.stRef).filter EncFrmStatus.valid

/-- The frames in the long-term slots. -/
def heldLt (cpb : EncVirtualCpb) : List EncFrmStatus :=
  ((List.finRange maxCpbLtFrm).map cpb.ltRef).filter EncFrmStatus.valid

/-- What is saved is what the buffer holds, the long-term frames first, and fits
    the array and the announced size. -/
def SnapshotOk (cpb : EncVirtualCpb) : Prop :=
  ∃ refs n, saveCpbStatus cpb = some refs ∧ refs = heldLt cpb ++ (heldSt cpb).take n ∧
    refs.length ≤ maxCpbRefs ∧ (refs.length : ℤ) ≤ cpb.info.dpbSize

/-- The long-term frames are as many as announced at most, and the frames the
    announced size leaves room for fit the array. -/
def Fits (cpb : EncVirtualCpb) : Prop :=
  (heldLt cpb).length ≤ cpb.info.maxLtCnt ∧
    (heldLt cpb).length + min ((heldSt cpb).length : ℤ)
      (cpb.info.dpbSize - (heldLt cpb).length) ≤ maxCpbRefs
  deriving Decidable

/-! ## What is saved -/

theorem mapM_eq_some {α β : Type*} {f : α → Option β} {g : α → β} {l : List α}
    (h : ∀ a ∈ l, f a = some (g a)) : l.mapM f = some (l.map g) := by
  induction l with
  | nil => rfl
  | cons a l ih =>
    rw [List.mapM_cons, h a List.mem_cons_self, ih fun b hb => h b (List.mem_cons_of_mem _ hb)]
    rfl

namespace HoldsStore

variable {cpb : EncVirtualCpb} {s : RefStore EncFrmStatus}

theorem map_finRange {α : Type*} {n : ℕ} (f : Fin n → α) (d : α) :
    (List.finRange n).map f = (List.range n).map fun i => if h : i < n then f ⟨i, h⟩ else d := by
  refine List.ext_getElem (by simp) fun i hi _ => ?_
  have : i < n := by simpa using hi
  simp [this]

theorem heldSt_eq (h : HoldsStore cpb s) : heldSt cpb = s.st := by
  rw [heldSt, map_finRange _ 0, RefStore.filter_slots (l := s.st),
    List.take_of_length_le h.length_st]
  · intro i hi hi'
    rw [dif_pos hi', h.stRef_of_lt hi hi']
  · exact fun frm hfrm => isSt_valid (h.isSt frm hfrm)
  · intro i hi hi'
    rw [dif_pos hi', h.stRef_valid_iff]
    exact not_lt.2 hi

theorem heldLt_eq (h : HoldsStore cpb s) : heldLt cpb = s.lt := by
  rw [heldLt, map_finRange _ 0, RefStore.filter_slots (l := s.lt),
    List.take_of_length_le h.length_lt]
  · intro i hi hi'
    rw [dif_pos hi', h.ltRef_of_lt hi hi']
  · exact fun frm hfrm => isLt_valid (h.isLt frm hfrm)
  · intro i hi hi'
    rw [dif_pos hi', h.ltRef_valid_iff]
    exact not_lt.2 hi

/-- The slot `i` of the array that has both halves. -/
theorem cpbRefs_getElem? (i : ℕ) (hi : i < maxCpbFrm) :
    cpb.cpbRefs[i]? = some (cpb.cpbRefs.get ⟨i, hi⟩) :=
  Vector.getElem?_eq_getElem hi

/-- The long-term frames among the first `n` long-term slots. -/
theorem lt_slots (h : HoldsStore cpb s) {n : ℕ} (hn : n ≤ maxCpbLtFrm) :
    ∃ l, (List.range n).mapM (fun i => cpb.cpbRefs[maxCpbStFrm + i]?) = some l ∧
      l.filter EncFrmStatus.isLt = s.lt.take n := by
  refine ⟨(List.range n).map fun i => if hi : i < maxCpbLtFrm then cpb.ltRef ⟨i, hi⟩ else 0,
    mapM_eq_some fun i hi => ?_, RefStore.filter_slots (fun i hi hin => ?_) h.isLt
      fun i hi hin => ?_⟩
  · have hi' : i < maxCpbLtFrm := (List.mem_range.1 hi).trans_le hn
    rw [dif_pos hi', cpbRefs_getElem? _ (Nat.add_lt_add_left hi' _)]
    rfl
  · have hi' : i < maxCpbLtFrm := hin.trans_le hn
    rw [dif_pos hi', h.ltRef_of_lt hi hi']
  · have hi' : i < maxCpbLtFrm := hin.trans_le hn
    rw [dif_pos hi']
    exact fun hlt => not_lt.2 hi ((h.ltRef_valid_iff ⟨i, hi'⟩).1 (isLt_valid hlt))

/-- A long-term slot holds no short-term frame. -/
theorem not_isSt_ltRef (h : HoldsStore cpb s) (i : Fin maxCpbLtFrm) : ¬(cpb.ltRef i).isSt := by
  intro hst
  have hi := (h.ltRef_valid_iff i).1 (isSt_valid hst)
  rw [h.ltRef_of_lt hi i.isLt] at hst
  have hlt := h.isLt _ (List.getElem_mem hi)
  simp only [EncFrmStatus.isSt, EncFrmStatus.isLt, Bool.and_eq_true, Bool.not_eq_true'] at hst hlt
  rw [hst.2] at hlt
  exact absurd hlt.2 (by simp)

/-- The short-term frames among the first `n` slots. -/
theorem st_slots (h : HoldsStore cpb s) {n : ℕ} (hn : n ≤ maxCpbFrm) :
    ∃ l, (List.range n).mapM (fun i => cpb.cpbRefs[i]?) = some l ∧
      l.filter EncFrmStatus.isSt = s.st.take n := by
  refine ⟨(List.range n).map fun i => if hi : i < maxCpbFrm then cpb.cpbRefs.get ⟨i, hi⟩ else 0,
    mapM_eq_some fun i hi => ?_, RefStore.filter_slots (fun i hi hin => ?_) h.isSt
      fun i hi hin => ?_⟩
  · have hi' : i < maxCpbFrm := (List.mem_range.1 hi).trans_le hn
    rw [dif_pos hi', cpbRefs_getElem? _ hi']
  · have hi' : i < maxCpbStFrm := hi.trans_le h.length_st
    rw [dif_pos (hin.trans_le hn)]
    exact h.stRef_of_lt hi hi'
  · have hi' : i < maxCpbFrm := hin.trans_le hn
    rw [dif_pos hi']
    rcases lt_or_ge i maxCpbStFrm with hst | hst
    · exact fun hs => not_lt.2 hi ((h.stRef_valid_iff ⟨i, hst⟩).1 (isSt_valid hs))
    · have hsub : i - maxCpbStFrm < maxCpbLtFrm := by
        have h32 : i < 32 := hi'
        have h16 : 16 ≤ i := hst
        change i - 16 < 16
        omega
      have hidx : (⟨i, hi'⟩ : Fin maxCpbFrm) = Fin.natAdd maxCpbStFrm ⟨i - maxCpbStFrm, hsub⟩ :=
        Fin.ext (Nat.add_sub_of_le hst).symm
      rw [hidx]
      exact h.not_isSt_ltRef _

/-- What is saved: the first `maxLtCnt` long-term frames, then as many short-term
    frames as the announced size has room for. -/
theorem saveCpbStatus_eq (h : HoldsStore cpb s) (hinfo : AcceptedInfo cpb.info) :
    saveCpbStatus cpb = some (s.lt.take cpb.info.maxLtCnt.toNat ++
      s.st.take (cpb.info.dpbSize.toNat - (s.lt.take cpb.info.maxLtCnt.toNat).length)) := by
  obtain ⟨h₁, h₂, h₃, h₄, h₅⟩ := hinfo
  have hcap : (maxCpbLtFrm : ℤ) = 16 := rfl
  have hcap' : (maxCpbStFrm : ℤ) = 16 := rfl
  obtain ⟨l, hl, hlt⟩ := h.lt_slots (n := cpb.info.maxLtCnt.toNat) (by omega)
  have hlen := List.length_take_le cpb.info.maxLtCnt.toNat s.lt
  generalize hrefs : s.lt.take cpb.info.maxLtCnt.toNat = refs at hlt hlen ⊢
  simp only [saveCpbStatus, bind_eq_bind, hl, bind_some, hlt]
  split_ifs with hroom hst
  · have hn : (cpb.info.dpbSize - refs.length).toNat = cpb.info.dpbSize.toNat - refs.length := by
      omega
    obtain ⟨l', hl', hst'⟩ := h.st_slots (n := cpb.info.dpbSize.toNat - refs.length)
      (by simp only [maxCpbFrm]; omega)
    rw [hn, hl', bind_some, hst']
  · have hn : cpb.info.maxStCnt.toNat = cpb.info.dpbSize.toNat - refs.length := by omega
    obtain ⟨l', hl', hst'⟩ := h.st_slots (n := cpb.info.dpbSize.toNat - refs.length)
      (by simp only [maxCpbFrm]; omega)
    rw [hn, hl', bind_some, hst']
  · have hn : cpb.info.dpbSize.toNat - refs.length = 0 := by omega
    rw [hn, List.take_zero, List.append_nil]

/-- What is saved is what is held, and fits, exactly when `Fits` says so. -/
theorem snapshotOk_iff (h : HoldsStore cpb s) (hinfo : AcceptedInfo cpb.info) :
    SnapshotOk cpb ↔ Fits cpb := by
  have hsave := h.saveCpbStatus_eq hinfo
  obtain ⟨h₁, h₂, h₃, h₄, h₅⟩ := hinfo
  have hcap : (maxCpbLtFrm : ℤ) = 16 := rfl
  have hcap' : (maxCpbStFrm : ℤ) = 16 := rfl
  unfold SnapshotOk Fits
  rw [h.heldLt_eq, h.heldSt_eq, hsave]
  constructor
  · rintro ⟨refs, n, hrefs, heq, hlen, hdpb⟩
    obtain rfl := some.inj hrefs
    -- counting the long-term frames of the two sides
    have hcount := congrArg (fun l => (l.filter EncFrmStatus.isLt).length) heq
    have hst : ∀ m, (s.st.take m).filter EncFrmStatus.isLt = [] := fun m => by
      refine List.filter_eq_nil_iff.2 fun frm hfrm hlt => ?_
      have := h.isSt frm (List.mem_of_mem_take hfrm)
      simp only [EncFrmStatus.isSt, EncFrmStatus.isLt, Bool.and_eq_true, Bool.not_eq_true']
        at this hlt
      rw [this.2] at hlt
      exact absurd hlt.2 (by simp)
    have hltall : ∀ l : List EncFrmStatus, l.Sublist s.lt → l.filter EncFrmStatus.isLt = l :=
      fun l hl => List.filter_eq_self.2 fun frm hfrm => h.isLt frm (hl.mem hfrm)
    simp only [List.filter_append, hst, List.append_nil, hltall _ (List.take_sublist _ _),
      hltall _ (List.Sublist.refl _), List.length_take] at hcount
    rw [List.length_append, List.length_take, List.length_take] at hlen
    omega
  · rintro ⟨hlt, hfit⟩
    have htake : s.lt.take cpb.info.maxLtCnt.toNat = s.lt :=
      List.take_of_length_le (by omega)
    rw [htake]
    refine ⟨_, _, rfl, rfl, ?_, ?_⟩ <;> rw [List.length_append, List.length_take] <;> omega

end HoldsStore

/-! ## The save points of a run -/

/-- Only configurations the check has accepted are installed. -/
def Accepts (_ : MppEncRefsImpl) (op : RefsOp) (_ : MppEncRefsImpl) : Prop :=
  ∀ cfg, op = .setCfg (some cfg) → ∃ raw, mppEncRefCfgCheck raw = some (true, cfg)

/-- The buffers saved in a run: for each frame one before and one after the frame
    is stored. -/
inductive SavePoint : EncVirtualCpb → Prop
  | init {p p₁ : MppEncRefsImpl} {frm : EncFrmStatus} {ref : Option EncFrmStatus}
      (status : EncCpbStatus) : (refsMachine.guarded Accepts).Reachable p →
      getCpbFrm p = some (p₁, frm) → getRefFromCpb p₁.cpb frm = some ref →
      SavePoint (setRefr p₁.cpb ref status.refr).1
  | final {p p₁ : MppEncRefsImpl} {frm : EncFrmStatus}
      {ref : Option EncFrmStatus} {init : Vector EncFrmStatus maxCpbRefs} (status : EncCpbStatus) :
      (refsMachine.guarded Accepts).Reachable p → getCpbFrm p = some (p₁, frm) →
      getRefFromCpb p₁.cpb frm = some ref →
      cpbSnapshot (setRefr p₁.cpb ref status.refr).1 = some init →
      SavePoint (storeRefToCpb (setRefr p₁.cpb ref status.refr).1
        (if status.curr.savePass1 then { frm with usePass1 := true } else frm))

/-- The buffer holds a store, and its sizes fit. -/
def SizedStore (cpb : EncVirtualCpb) : Prop :=
  (∃ s, HoldsStore cpb s) ∧ AcceptedInfo cpb.info

theorem sizedStore_zero : SizedStore 0 := ⟨⟨.empty, holdsStore_zero⟩, acceptedInfo_zero⟩

/-- Up to the storing of the frame. -/
theorem SizedStore.getCpbFrm {p p₁ : MppEncRefsImpl} {frm : EncFrmStatus} (h : SizedStore p.cpb)
    (hfrm : EncRef.getCpbFrm p = some (p₁, frm)) : SizedStore p₁.cpb := by
  obtain ⟨⟨s, hs⟩, hinfo⟩ := h
  have hstep := getCpbFrm_spec hfrm
  refine ⟨⟨_, getCpbFrm_tables hs hstep⟩, ?_⟩
  rw [hstep.tables.info, updateGop_info]
  exact hinfo

variable {cpb : EncVirtualCpb}

theorem SizedStore.setRefr (h : SizedStore cpb) (ref : Option EncFrmStatus)
    (refr : EncFrmStatus) : SizedStore (setRefr cpb ref refr).1 := by
  obtain ⟨⟨s, hs⟩, hinfo⟩ := h
  obtain ⟨⟨r, hr⟩, -⟩ := setRefr_spec cpb ref refr
  rw [hr]
  exact ⟨⟨s, hs.congr rfl rfl rfl⟩, hinfo⟩

theorem SizedStore.store (h : SizedStore cpb) {frm : EncFrmStatus}
    (hv : frm.valid) : SizedStore (storeRefToCpb cpb frm) := by
  obtain ⟨⟨s, hs⟩, hinfo⟩ := h
  refine ⟨⟨_, hs.store hv⟩, ?_⟩
  rw [(storeRefToCpb_counters _ _).1]
  exact hinfo

theorem sizedStore_step {p p' : MppEncRefsImpl} {op : RefsOp}
    (h : SizedStore p.cpb ∧ SizedStore p.cpbStash) (hstep : refsStep p op = some p')
    (haccept : Accepts p op p') : SizedStore p'.cpb ∧ SizedStore p'.cpbStash := by
  refine refsStep_cpb h hstep ?_ ?_ ?_
  · rintro cpb refr ⟨⟨s, hs⟩, hinfo⟩
    exact ⟨⟨s, hs.congr rfl rfl rfl⟩, hinfo⟩
  · rintro refCfg rfl hset
    obtain ⟨-, -, cpb, hcpb, h₁, h₂, h₃, -⟩ := mppEncRefsSetCfg_spec hset
    have hstore : ∃ s, HoldsStore cpb s := by
      rcases hcpb with rfl | rfl
      · exact h.1.1
      · exact sizedStore_zero.1
    obtain ⟨s, hs⟩ := hstore
    refine ⟨⟨s, hs.congr h₁ h₂ h₃⟩, ?_⟩
    rw [(mppEncRefsSetCfg_info hset).2.1]
    cases refCfg with
    | none => exact acceptedCfg_default.info
    | some cfg =>
      obtain ⟨raw, hraw⟩ := haccept cfg rfl
      exact (accepted_of_check hraw).info
  · rintro st st' - hget
    obtain ⟨p₁, frm, ref, hframe⟩ := mppEncRefsGetCpb_spec hget
    obtain ⟨⟨s, hs⟩, hinfo⟩ := h.1.getCpbFrm hframe.frm_eq
    obtain ⟨refr, rfl⟩ := hframe.cpb
    obtain ⟨_, hcurr⟩ := hframe.curr
    have hlist0 : SizedStore { p₁.cpb with list0 := refr } := ⟨⟨s, hs.congr rfl rfl rfl⟩, hinfo⟩
    refine hlist0.store ?_
    rw [hcurr]
    exact (getCpbFrm_spec hframe.frm_eq).valid

theorem reachable_sizedStore {p : MppEncRefsImpl}
    (h : (refsMachine.guarded Accepts).Reachable p) : SizedStore p.cpb := by
  refine (Machine.Reachable.invariant
    (P := fun p => SizedStore p.cpb ∧ SizedStore p.cpbStash) ?_ ?_ h).1
  · rintro _ rfl
    exact ⟨sizedStore_zero, sizedStore_zero⟩
  · rintro p op p' - hp ⟨hstep, haccept⟩
    exact sizedStore_step hp hstep haccept

theorem SavePoint.sizedStore (h : SavePoint cpb) : SizedStore cpb := by
  cases h with
  | init status hp hfrm _ => exact ((reachable_sizedStore hp).getCpbFrm hfrm).setRefr _ _
  | final status hp hfrm _ _ =>
    refine (((reachable_sizedStore hp).getCpbFrm hfrm).setRefr _ _).store ?_
    have hv := (getCpbFrm_spec hfrm).valid
    split_ifs <;> exact hv

/-- In every run over accepted configurations, whatever the user forces, what is
    saved for a frame is what the buffer holds and fits the array, exactly when
    the buffer fits what was announced. -/
theorem savePoint_snapshotOk_iff (h : SavePoint cpb) :
    SnapshotOk cpb ↔ Fits cpb := by
  obtain ⟨⟨s, hs⟩, hinfo⟩ := h.sizedStore
  exact hs.snapshotOk_iff hinfo

/-- The calls install none but these configurations. -/
def SetsOnly (cfgs : List (Option MppEncRefCfgImpl)) (_ : MppEncRefsImpl) (op : RefsOp)
    (_ : MppEncRefsImpl) : Prop :=
  (match op with
    | .setCfg refCfg => decide (refCfg ∈ cfgs)
    | _ => true) = true
  deriving Decidable

/-- A run that installs accepted configurations only. -/
theorem reachable_of_run {cfgs : List (Option MppEncRefCfgImpl)} {l : List RefsOp}
    {p : MppEncRefsImpl} (hcfgs : ∀ cfg, some cfg ∈ cfgs →
      ∃ raw, mppEncRefCfgCheck raw = some (true, cfg))
    (hrun : Machine.run refsStep (SetsOnly cfgs) mppEncRefsInit l = some p) :
    (refsMachine.guarded Accepts).Reachable p := by
  refine Machine.Reachable.mono ?_ (Machine.Reachable.run (.init rfl) hrun)
  rintro p op p' hop cfg rfl
  exact hcfgs cfg (of_decide_eq_true hop)

/-- The buffer saved after the next frame. -/
def nextFinal (p : MppEncRefsImpl) : Option EncVirtualCpb := do
  let (p₁, frm) ← getCpbFrm p
  let ref ← getRefFromCpb p₁.cpb frm
  let cpb := (setRefr p₁.cpb ref 0).1
  let _ ← cpbSnapshot cpb
  some (storeRefToCpb cpb frm)

theorem savePoint_of_nextFinal {p : MppEncRefsImpl}
    (hp : (refsMachine.guarded Accepts).Reachable p) (h : nextFinal p = some cpb) :
    SavePoint cpb := by
  simp only [nextFinal, bind_eq_bind, bind_eq_some_iff, some.injEq] at h
  obtain ⟨⟨p₁, frm⟩, hfrm, ref, href, init, hinit, rfl⟩ := h
  exact SavePoint.final default hp hfrm href hinit

/-- Eight long-term entries, each for one frame. -/
def eightLtCfg : MppEncRefCfgImpl :=
  { mppEncRefDefault with
    ready := false
    ltCfg := (List.range 8).map fun (i : ℕ) =>
      { ltIdx := i, temporalId := 0, refMode := .toPrevRefFrm, refArg := 0, ltGap := 0,
        ltDelay := i } }

/-- The check accepts eight long-term entries. After the eight long-term frames, the
    first short-term frame is the ninth written to the array of eight. -/
theorem snapshot_overflow :
    (∃ cfg, mppEncRefCfgCheck eightLtCfg = some (true, cfg)) ∧
      ∃ cpb, SavePoint cpb ∧ (saveCpbStatus cpb).map List.length = some 9 ∧ ¬SnapshotOk cpb := by
  have hrun : ((mppEncRefCfgCheck eightLtCfg).any fun s => s.1 &&
      (Machine.run refsStep (SetsOnly [some s.2]) mppEncRefsInit
        (.setCfg (some s.2) :: List.replicate 8 (.getCpb default))).any fun p =>
          (nextFinal p).any fun cpb =>
            (saveCpbStatus cpb).map List.length == some 9) = true := by
    decide +kernel
  obtain ⟨⟨ready, cfg⟩, hcheck, hv⟩ := (any_eq_true _ _).1 hrun
  rw [Bool.and_eq_true] at hv
  obtain ⟨hready, hv⟩ := hv
  obtain ⟨p, hp, hv⟩ := (any_eq_true _ _).1 hv
  obtain ⟨cpb, hcpb, hlen⟩ := (any_eq_true _ _).1 hv
  have hcheck' : mppEncRefCfgCheck eightLtCfg = some (true, cfg) := by
    rw [hcheck]
    exact congrArg (fun b => some (b, cfg)) hready
  have hreach := reachable_of_run (fun cfg' hmem => by
    obtain rfl : cfg' = cfg := by simpa using hmem
    exact ⟨_, hcheck'⟩) hp
  have hlen' := beq_iff_eq.1 hlen
  refine ⟨⟨cfg, hcheck'⟩, cpb, savePoint_of_nextFinal hreach hcpb, hlen', ?_⟩
  rintro ⟨refs, n, hrefs, -, hle, -⟩
  rw [hrefs] at hlen'
  have : refs.length = 9 := some.inj hlen'
  exact absurd (this ▸ hle) (by decide)

/-- With the default configuration and no forced frame, the second frame is saved
    with the first one. -/
theorem savePoint_snapshotOk_iff_default : ∃ cpb, SavePoint cpb ∧ Fits cpb ∧ SnapshotOk cpb := by
  have hrun : ((Machine.run refsStep (SetsOnly [none]) mppEncRefsInit
      [.setCfg none, .getCpb default]).any fun p => (nextFinal p).any fun cpb =>
        decide (Fits cpb)) = true := by
    decide
  obtain ⟨p, hp, hv⟩ := (any_eq_true _ _).1 hrun
  obtain ⟨cpb, hcpb, hv⟩ := (any_eq_true _ _).1 hv
  have hv := of_decide_eq_true hv
  have hreach := reachable_of_run (fun cfg' hmem => by simp at hmem) hp
  have hsave := savePoint_of_nextFinal hreach hcpb
  exact ⟨cpb, hsave, hv, (savePoint_snapshotOk_iff hsave).2 hv⟩

end Libmpp.EncRef
