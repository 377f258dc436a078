import Libmpp.EncRef.Forced

/-!
# Taking a frame back

The encoder stashes the buffer before a frame (`mpp_enc_refs_stash`) and, when it encodes
the frame again, rolls the buffer back and asks for the status once more. The stash holds
the buffer only: the changes pending in `changed` and what the user forces are consumed by
the first call, and the rollback gives neither back (`rollback_flags`).

* `getCpbFrm_again` and `changesKept_of_again`: without the pending changes the frame comes
  out the same exactly when they do not matter (`ChangesKept`).
* `rollback_undoes_iff` says for which states and statuses a frame taken back, with the
  user's configuration handed over again, comes out the same the second time.
-/

namespace Libmpp.EncRef

open Option

/-! ## A whole frame -/

/-- The steps of a frame from the reference lookup on. -/
def finishFrm (x : MppEncRefsImpl × EncFrmStatus) (status : EncCpbStatus) :
    Option (MppEncRefsImpl × EncCpbStatus) := do
  let ref ← getRefFromCpb x.1.cpb x.2
  let (cpb, refr) := setRefr x.1.cpb ref status.refr
  let frm := if status.curr.savePass1 then { x.2 with usePass1 := true } else x.2
  let init ← cpbSnapshot cpb
  let cpb := storeRefToCpb cpb frm
  let final ← cpbSnapshot cpb
  some ({ x.1 with cpb }, { curr := frm, refr, init, final })

theorem mppEncRefsGetCpb_eq (p : MppEncRefsImpl) (status : EncCpbStatus) :
    mppEncRefsGetCpb p status = (getCpbFrm p).bind (finishFrm · status) := rfl

/-- Storing a frame leaves the counters that no table depends on. -/
theorem storeRefToCpb_places (cpb : EncVirtualCpb) (frm : EncFrmStatus) :
    (storeRefToCpb cpb frm).list0 = cpb.list0 ∧ (storeRefToCpb cpb frm).seqCnt = cpb.seqCnt ∧
      (storeRefToCpb cpb frm).stCfgPos = cpb.stCfgPos ∧
      (storeRefToCpb cpb frm).stCfgRepeatPos = cpb.stCfgRepeatPos := by
  unfold storeRefToCpb
  split_ifs
  · exact ⟨rfl, rfl, rfl, rfl⟩
  all_goals dsimp only
  all_goals first
    | exact ⟨rfl, rfl, rfl, rfl⟩
    | split <;> exact ⟨rfl, rfl, rfl, rfl⟩

/-- What the steps from the reference lookup on write. -/
structure Finished (q : MppEncRefsImpl) (frm : EncFrmStatus) (status : EncCpbStatus)
    (ref : Option EncFrmStatus) (p : MppEncRefsImpl) (s : EncCpbStatus) : Prop where
  ref_eq : getRefFromCpb q.cpb frm = some ref
  curr : s.curr = { frm with usePass1 := status.curr.savePass1 || frm.usePass1 }
  outer : p = { q with cpb := p.cpb }
  list0 : p.cpb.list0 = if ref.isSome then status.refr else q.cpb.list0
  seqCnt : p.cpb.seqCnt = q.cpb.seqCnt
  stCfgPos : p.cpb.stCfgPos = q.cpb.stCfgPos
  stCfgRepeatPos : p.cpb.stCfgRepeatPos = q.cpb.stCfgRepeatPos

variable {status s : EncCpbStatus}

variable {frm : EncFrmStatus}

theorem finishFrm_spec {q p : MppEncRefsImpl}
    (h : finishFrm (q, frm) status = some (p, s)) : ∃ ref, Finished q frm status ref p s := by
  simp only [finishFrm, bind_eq_bind, bind_eq_some_iff, some.injEq,
    Prod.mk.injEq] at h
  obtain ⟨ref, href, init, -, final, -, rfl, rfl⟩ := h
  refine ⟨ref, href, ?_, rfl, ?_, ?_, ?_, ?_⟩
  · cases status.curr.savePass1 <;> rfl
  · rw [(storeRefToCpb_places _ _).1]
    cases ref <;> rfl
  · rw [(storeRefToCpb_places _ _).2.1]
    cases ref <;> rfl
  · rw [(storeRefToCpb_places _ _).2.2.1]
    cases ref <;> rfl
  · rw [(storeRefToCpb_places _ _).2.2.2]
    cases ref <;> rfl

variable {ref : Option EncFrmStatus}

/-- Of the status passed in, the pass flag is read, and the reference when the frame has
    one. -/
theorem finishFrm_congr {q : MppEncRefsImpl} {status' : EncCpbStatus}
    (href : getRefFromCpb q.cpb frm = some ref)
    (hpass : status'.curr.savePass1 = status.curr.savePass1)
    (hrefr : ref.isSome → status'.refr = status.refr) :
    finishFrm (q, frm) status' = finishFrm (q, frm) status := by
  unfold finishFrm
  rw [href]
  cases ref with
  | none => simp only [bind_eq_bind, bind_some, setRefr, hpass]
  | some ref => simp only [bind_eq_bind, bind_some, setRefr, hpass, hrefr rfl]

/-- A frame has a reference unless it is IDR or its mode selects none. -/
theorem getRefFromCpb_isSome {cpb : EncVirtualCpb}
    (h : getRefFromCpb cpb frm = some ref) :
    ref.isSome ↔ frm.isIdr = false ∧ frm.refMode.isGlobal := by
  unfold getRefFromCpb at h
  cases hi : frm.isIdr with
  | true =>
    rw [hi, if_pos rfl] at h
    cases h
    simp
  | false =>
    rw [hi, if_neg Bool.false_ne_true] at h
    cases hm : frm.refMode <;> rw [hm] at h <;> dsimp only at h
    case toPrevRefFrm | toPrevStRef | toPrevLtRef | toPrevIntra =>
      obtain rfl := some.inj h
      exact iff_of_true rfl ⟨rfl, by decide⟩
    case toTemporalLayer | toLtRefIdx | toStPrevNRef =>
      obtain ⟨_, -, rfl⟩ := map_eq_some_iff.1 h
      exact iff_of_true rfl ⟨rfl, by decide⟩
    all_goals
      obtain rfl := some.inj h
      exact iff_of_false Bool.false_ne_true fun hg => absurd hg.2 (by decide)

/-- The restart decision leaves all but the user's configuration and the buffer. -/
theorem updateGop_outer (p : MppEncRefsImpl) :
    updateGop p =
      { p with changed := 0, usrCfg := (updateGop p).usrCfg, cpb := (updateGop p).cpb } := by
  unfold updateGop
  split_ifs <;> simp only [] <;> split_ifs <;> rfl

theorem nextStCfg_places (cpb : EncVirtualCpb) (stCfg : MppEncRefStFrmCfg) :
    (nextStCfg cpb stCfg).seqCnt = cpb.seqCnt ∧
      ((nextStCfg cpb stCfg).stCfgPos, (nextStCfg cpb stCfg).stCfgRepeatPos) =
        if stCfg.repeat' ≤ cpb.stCfgRepeatPos then (cpb.stCfgPos + 1, 0)
        else (cpb.stCfgPos, cpb.stCfgRepeatPos + 1) := by
  have hiff : (((cpb.stCfgRepeatPos + 1 : ℕ) : ℤ) > stCfg.repeat') ↔
      stCfg.repeat' ≤ cpb.stCfgRepeatPos := by
    push_cast
    omega
  unfold nextStCfg
  dsimp only
  by_cases h : stCfg.repeat' ≤ cpb.stCfgRepeatPos
  · rw [if_pos (hiff.2 h), if_pos h]
    exact ⟨rfl, rfl⟩
  · rw [if_neg fun h' => h (hiff.1 h'), if_neg h]
    exact ⟨rfl, rfl⟩

/-- The steps behind the restart decision taken apart. -/
theorem restFrm_eq_some {u q : MppEncRefsImpl} {cfg : MppEncRefCfgImpl}
    (h : restFrm u cfg = some (q, frm)) :
    ∃ stCfg x, cfg.stCfg[getCpbStCfgPos u.cpb cfg]? = some stCfg ∧
      statusFrm
          { u with
            cpb := u.cpb.goto (u.cpb.frmIdx + 1) (getCpbStCfgPos u.cpb cfg)
              u.cpb.stCfgRepeatPos }
          cfg stCfg = some (x, frm) ∧
      q = { x with cpb := nextStCfg x.cpb stCfg } := by
  unfold restFrm at h
  simp only [bind_eq_bind, bind_eq_some_iff, some.injEq,
    Prod.mk.injEq] at h
  obtain ⟨stCfg, hst, ⟨x, frm'⟩, hx, rfl, rfl⟩ := h
  exact ⟨stCfg, x, hst, hx, rfl⟩

/-- The manager after a frame: its setup is kept, no change is pending. -/
theorem getCpbFrm_outer {p q : MppEncRefsImpl}
    (h : getCpbFrm p = some (q, frm)) :
    q = { p with changed := 0, usrCfg := q.usrCfg, cpb := q.cpb } ∧
      q.cpb.seqCnt = (updateGop p).cpb.seqCnt ∧ frm.usePass1 = false := by
  rw [getCpbFrm_eq] at h
  obtain ⟨cfg, -, h⟩ := bind_eq_some_iff.1 h
  obtain ⟨stCfg, x, -, hx, rfl⟩ := restFrm_eq_some h
  obtain ⟨hx, hpass, -⟩ := statusFrm_spec hx
  have hu := updateGop_outer p
  refine ⟨?_, ?_, hpass⟩
  · rw [hx, hu]
  · rw [(nextStCfg_places _ _).1, hx]
    unfold forcedCpb
    split_ifs <;> rfl

/-! ## The same frame once more -/

/-- The pending change of the configuration does not matter to the next frame. A frame forced
    to be a long-term reference only takes its reference mode from the short-term entry, and
    whether the entry is repeated; any other frame has to be at the start of the entries. -/
def EntryKept (p : MppEncRefsImpl) (cfg : MppEncRefCfgImpl) : Prop :=
  ∃ first stCfg, cfg.stCfg[0]? = some first ∧
    cfg.stCfg[getCpbStCfgPos p.cpb cfg]? = some stCfg ∧
    if p.usrCfg.has encForceLtRefIdx then
      nextRef p cfg first = nextRef p cfg stCfg ∧ (first.repeat' ≤ 0 ↔ stCfg.repeat' ≤ 0)
    else getCpbStCfgPos p.cpb cfg = 0 ∧ (p.cpb.stCfgRepeatPos = 0 ∨ first.repeat' ≤ 0)

/-- The changes pending do not matter to the next frame. -/
def ChangesKept (p : MppEncRefsImpl) (cfg : MppEncRefCfgImpl) : Prop :=
  RestartsAnyway p ∨ ¬IgopChanged p ∧ (CfgChanged p → EntryKept p cfg)

section Again

variable {p q q' : MppEncRefsImpl} {cfg : MppEncRefCfgImpl} {c : UInt32} {frm frm' : EncFrmStatus}

theorem nextStCfg_congr {cpb : EncVirtualCpb} {stCfg stCfg' : MppEncRefStFrmCfg}
    (h : stCfg.repeat' ≤ cpb.stCfgRepeatPos ↔ stCfg'.repeat' ≤ cpb.stCfgRepeatPos) :
    nextStCfg cpb stCfg = nextStCfg cpb stCfg' := by
  unfold nextStCfg
  dsimp only
  by_cases hr : stCfg.repeat' ≤ cpb.stCfgRepeatPos
  · have hr' := h.1 hr
    rw [if_pos (by push_cast; omega), if_pos (by push_cast; omega)]
  · have hr' := fun h' => hr (h.2 h')
    rw [if_neg (by push_cast; omega), if_neg (by push_cast; omega)]

/-- The manager of a frame with no change pending, but for the restart. -/
def calm (p : MppEncRefsImpl) : MppEncRefsImpl := { p with changed := 0, cpb := turnCpb p }

/-- The manager at a position in the short-term entries. -/
def calmAt (p : MppEncRefsImpl) (pos rep : ℕ) : MppEncRefsImpl :=
  { calm p with cpb := (calm p).cpb.goto (p.cpb.frmIdx + 1) pos rep }

theorem nextRef_calmAt (p : MppEncRefsImpl) (cfg : MppEncRefCfgImpl) (stCfg : MppEncRefStFrmCfg)
    (pos rep : ℕ) : nextRef (calmAt p pos rep) cfg stCfg = nextRef p cfg stCfg := by
  have husr : (calmAt p pos rep).usrCfg = p.usrCfg := rfl
  have hcnt : (calmAt p pos rep).cpb.ltCnter = p.cpb.ltCnter := rfl
  simp only [nextRef, husr, hcnt]

/-- The buffer after the status of a frame. -/
def statusCpb (p : MppEncRefsImpl) (cfg : MppEncRefCfgImpl) (pos rep : ℕ) : EncVirtualCpb :=
  forcedCpb p ((ltCounted (calm p) cfg).cpb.goto (p.cpb.frmIdx + 1) pos rep)

/-- A frame that a change of the configuration is pending for, and the same frame without the
    change. -/
structure CfgPending (p q : MppEncRefsImpl) (cfg : MppEncRefCfgImpl) (frm : EncFrmStatus)
    (first : MppEncRefStFrmCfg) (x : MppEncRefsImpl) : Prop where
  first_eq : cfg.stCfg[0]? = some first
  status : ∀ pos rep,
    statusFrm (calmAt p pos rep) cfg first = some ({ x with cpb := statusCpb p cfg pos rep }, frm)
  ref : frm.ref = nextRef p cfg first
  eq : q = { x with cpb := nextStCfg (statusCpb p cfg 0 0) first }

theorem getCpbStCfgPos_zero (cpb : EncVirtualCpb) (cfg : MppEncRefCfgImpl)
    (h : cpb.stCfgPos = 0) : getCpbStCfgPos cpb cfg = 0 := by
  unfold getCpbStCfgPos
  rw [h]
  split_ifs <;> omega

theorem getCpbFrm_cfgPending (hcfg : p.refCfg = some cfg) (hr : ¬RestartsAnyway p)
    (hi : ¬IgopChanged p) (hc : CfgChanged p) (h : getCpbFrm p = some (q, frm)) :
    ∃ first x, CfgPending p q cfg frm first x := by
  rw [getCpbFrm_eq, hcfg, bind_some, updateGop_of_not_restartsAnyway hr, if_neg hi,
    if_pos hc] at h
  obtain ⟨first, x, hfirst, hx, rfl⟩ := restFrm_eq_some h
  rw [getCpbStCfgPos_zero _ _ rfl] at hfirst hx
  have hx' : statusFrm (calmAt p 0 0) cfg first = some (x, frm) := hx
  obtain ⟨hxeq, -, hany⟩ := statusFrm_spec hx'
  have hcpb : x.cpb = statusCpb p cfg 0 0 := congrArg MppEncRefsImpl.cpb hxeq
  refine ⟨first, x, hfirst, fun pos rep => hany _ pos rep, ?_, by rw [hcpb]⟩
  rw [statusFrm_ref hx', nextRef_calmAt]

/-- The frame without the pending change of the configuration. -/
theorem getCpbFrm_calm (hcfg : p.refCfg = some cfg) (hr : ¬RestartsAnyway p)
    (hci : c &&& encRefsIgopChanged = 0) (hcc : c &&& encRefsRefCfgChanged = 0) :
    getCpbFrm { p with changed := c } = restFrm (calm p) cfg := by
  have hr' : ¬RestartsAnyway { p with changed := c } := hr
  have hi : ¬IgopChanged { p with changed := c } := not_not.2 hci
  have hc : ¬CfgChanged { p with changed := c } := not_not.2 hcc
  rw [getCpbFrm_eq, updateGop_of_not_restartsAnyway hr', if_neg hi, if_neg hc]
  exact congrArg (Option.bind · _) hcfg

theorem restFrm_calm {stCfg : MppEncRefStFrmCfg}
    (hst : cfg.stCfg[getCpbStCfgPos p.cpb cfg]? = some stCfg) :
    restFrm (calm p) cfg =
      (statusFrm (calmAt p (getCpbStCfgPos p.cpb cfg) p.cpb.stCfgRepeatPos) cfg stCfg).bind
        fun s => some ({ s.1 with cpb := nextStCfg s.1.cpb stCfg }, s.2) := by
  unfold restFrm
  rw [show getCpbStCfgPos (calm p).cpb cfg = getCpbStCfgPos p.cpb cfg from rfl, hst]
  rfl

/-- A frame forced to be a long-term reference goes back to the start of the entries. -/
theorem statusCpb_of_has (h : p.usrCfg.has encForceLtRefIdx) (cfg : MppEncRefCfgImpl)
    (pos rep : ℕ) : statusCpb p cfg pos rep = statusCpb p cfg 0 0 := by
  unfold statusCpb forcedCpb
  rw [if_pos h, if_pos h]
  rfl

theorem statusCpb_of_not_has (h : ¬p.usrCfg.has encForceLtRefIdx) (cfg : MppEncRefCfgImpl)
    (pos rep : ℕ) : statusCpb p cfg pos rep =
      (ltCounted (calm p) cfg).cpb.goto (p.cpb.frmIdx + 1) pos rep := if_neg h

/-- The position after the frame, by the entry it was coded with. -/
theorem nextStCfg_statusCpb (p : MppEncRefsImpl) (cfg : MppEncRefCfgImpl) (pos rep : ℕ)
    (stCfg : MppEncRefStFrmCfg) :
    ((nextStCfg (statusCpb p cfg pos rep) stCfg).stCfgPos,
      (nextStCfg (statusCpb p cfg pos rep) stCfg).stCfgRepeatPos) =
      if p.usrCfg.has encForceLtRefIdx then if stCfg.repeat' ≤ 0 then (1, 0) else (0, 1)
      else if stCfg.repeat' ≤ rep then (pos + 1, 0) else (pos, rep + 1) := by
  rw [(nextStCfg_places _ _).2]
  unfold statusCpb forcedCpb
  by_cases h : p.usrCfg.has encForceLtRefIdx
  · rw [if_pos h, if_pos h]
    rfl
  · rw [if_neg h, if_neg h]
    rfl

theorem CfgPending.again {first : MppEncRefStFrmCfg} {x : MppEncRefsImpl}
    (h : CfgPending p q cfg frm first x) (hk : EntryKept p cfg) :
    restFrm (calm p) cfg = some (q, frm) := by
  obtain ⟨first', stCfg, hfirst, hst, hk⟩ := hk
  obtain rfl : first' = first := some.inj (hfirst.symm.trans h.first_eq)
  rw [restFrm_calm hst, h.eq]
  by_cases hf : p.usrCfg.has encForceLtRefIdx
  · rw [if_pos hf] at hk
    have hr := hk.1
    rw [← nextRef_calmAt p cfg first' (getCpbStCfgPos p.cpb cfg) p.cpb.stCfgRepeatPos,
      ← nextRef_calmAt p cfg stCfg (getCpbStCfgPos p.cpb cfg) p.cpb.stCfgRepeatPos] at hr
    have hf' : (calmAt p (getCpbStCfgPos p.cpb cfg)
      p.cpb.stCfgRepeatPos).usrCfg.has encForceLtRefIdx := hf
    rw [← statusFrm_congr hf' hr, h.status, bind_some, statusCpb_of_has hf,
      nextStCfg_congr]
    unfold statusCpb forcedCpb
    rw [if_pos hf]
    exact hk.2.symm
  · rw [if_neg hf] at hk
    obtain ⟨hpos, hrep⟩ := hk
    obtain rfl : first' = stCfg := some.inj (hfirst.symm.trans (hpos ▸ hst))
    rw [h.status, bind_some, hpos]
    rcases hrep with hrep | hrep
    · rw [hrep]
    · -- The entry is over with this frame, however often it was repeated.
      have hnext (n : ℕ) : nextStCfg (statusCpb p cfg 0 n) first' =
          (ltCounted (calm p) cfg).cpb.goto (p.cpb.frmIdx + 1) 1 0 := by
        rw [statusCpb_of_not_has hf]
        unfold nextStCfg
        dsimp only [EncVirtualCpb.goto]
        rw [if_pos (by push_cast; omega)]
      rw [hnext, hnext]

theorem CfgPending.kept {first : MppEncRefStFrmCfg} {x : MppEncRefsImpl}
    (h : CfgPending p q cfg frm first x) (h' : restFrm (calm p) cfg = some (q', frm'))
    (hpos : q.cpb.stCfgPos = q'.cpb.stCfgPos)
    (hrep : q.cpb.stCfgRepeatPos = q'.cpb.stCfgRepeatPos) (href : frm.ref = frm'.ref) :
    EntryKept p cfg := by
  obtain ⟨stCfg, x', hst, hx', rfl⟩ := restFrm_eq_some h'
  have hst : cfg.stCfg[getCpbStCfgPos p.cpb cfg]? = some stCfg := hst
  have hx' : statusFrm (calmAt p (getCpbStCfgPos p.cpb cfg) p.cpb.stCfgRepeatPos) cfg stCfg =
    some (x', frm') := hx'
  have hcpb : x'.cpb = statusCpb p cfg (getCpbStCfgPos p.cpb cfg) p.cpb.stCfgRepeatPos :=
    congrArg MppEncRefsImpl.cpb (statusFrm_spec hx').1
  have hplace := congrArg₂ Prod.mk hpos hrep
  rw [h.eq, hcpb] at hplace
  have hplace := (nextStCfg_statusCpb p cfg 0 0 first).symm.trans
    (hplace.trans (nextStCfg_statusCpb p cfg _ _ stCfg))
  refine ⟨first, stCfg, h.first_eq, hst, ?_⟩
  by_cases hf : p.usrCfg.has encForceLtRefIdx
  · rw [if_pos hf, if_pos hf] at hplace
    rw [if_pos hf]
    rw [h.ref, statusFrm_ref hx', nextRef_calmAt] at href
    refine ⟨href, ?_⟩
    split_ifs at hplace with h₁ h₂ h₂
    · exact iff_of_true h₁ h₂
    · exact absurd (congrArg Prod.fst hplace) (by decide)
    · exact absurd (congrArg Prod.fst hplace) (by decide)
    · exact iff_of_false h₁ h₂
  · rw [if_neg hf, if_neg hf] at hplace
    rw [if_neg hf]
    split_ifs at hplace with h₁ h₂ h₂ <;> obtain ⟨h₃, h₄⟩ := Prod.mk.inj hplace
    · exact ⟨by omega, .inr (by exact_mod_cast h₁)⟩
    · omega
    · omega
    · exact ⟨h₃.symm, .inl (by omega)⟩

/-- With changes that do not matter, the frame comes out the same without them. -/
theorem getCpbFrm_again (hcfg : p.refCfg = some cfg) (hk : ChangesKept p cfg)
    (hci : c &&& encRefsIgopChanged = 0) (hcc : c &&& encRefsRefCfgChanged = 0)
    (h : getCpbFrm p = some (q, frm)) : getCpbFrm { p with changed := c } = some (q, frm) := by
  by_cases hr : RestartsAnyway p
  · rw [getCpbFrm_eq] at h ⊢
    rw [updateGop_of_restartsAnyway hr]
    exact h
  · obtain ⟨hi, hentry⟩ := hk.resolve_left hr
    rw [getCpbFrm_calm hcfg hr hci hcc]
    by_cases hc : CfgChanged p
    · obtain ⟨first, x, hx⟩ := getCpbFrm_cfgPending hcfg hr hi hc h
      exact hx.again (hentry hc)
    · rw [getCpbFrm_eq, hcfg, updateGop_of_not_restartsAnyway hr, if_neg hi, if_neg hc] at h
      exact h

/-- When the frame comes out the same, the changes did not matter. -/
theorem changesKept_of_again (hcfg : p.refCfg = some cfg)
    (hci : c &&& encRefsIgopChanged = 0) (hcc : c &&& encRefsRefCfgChanged = 0)
    (h : getCpbFrm p = some (q, frm)) (h' : getCpbFrm { p with changed := c } = some (q', frm'))
    (hcnt : q.cpb.seqCnt = q'.cpb.seqCnt) (hpos : q.cpb.stCfgPos = q'.cpb.stCfgPos)
    (hrep : q.cpb.stCfgRepeatPos = q'.cpb.stCfgRepeatPos) (href : frm.ref = frm'.ref) :
    ChangesKept p cfg := by
  by_cases hr : RestartsAnyway p
  · exact .inl hr
  have hi : ¬IgopChanged p := fun hi => by
    -- The gop restarts the first time only, and is counted.
    have h₁ := (getCpbFrm_outer h).2.1
    have h₂ := (getCpbFrm_outer h').2.1
    have hr' : ¬RestartsAnyway { p with changed := c } := hr
    have hi' : ¬IgopChanged { p with changed := c } := not_not.2 hci
    have hc' : ¬CfgChanged { p with changed := c } := not_not.2 hcc
    rw [updateGop_of_not_restartsAnyway hr, if_pos hi] at h₁
    rw [updateGop_of_not_restartsAnyway hr', if_neg hi', if_neg hc'] at h₂
    rw [hcnt, h₂] at h₁
    exact absurd h₁ (by simp [cleanupCpbRefs, turnCpb, turnSeqCnt, GopEnd])
  refine .inr ⟨hi, fun hc => ?_⟩
  obtain ⟨first, x, hx⟩ := getCpbFrm_cfgPending hcfg hr hi hc h
  rw [getCpbFrm_calm hcfg hr hci hcc] at h'
  exact hx.kept h' hpos hrep href

end Again

/-! ## Taking a frame back -/

/-- The manager after the frame that led from `p` to `p₁` was taken back and the user's
    configuration handed over again. -/
def takenBack (p p₁ : MppEncRefsImpl) : MppEncRefsImpl :=
  mppEncRefsSetUsrCfg (mppEncRefsRollback p₁) p.usrCfg

/-- The next frame takes a reference: it is not IDR and its mode selects one. -/
def TakesRef (p : MppEncRefsImpl) (cfg : MppEncRefCfgImpl) : Prop :=
  (updateGop p).cpb.seqIdx ≠ 0 ∧
    ∃ stCfg, cfg.stCfg[getCpbStCfgPos (updateGop p).cpb cfg]? = some stCfg ∧
      (nextRef (updateGop p) cfg stCfg).1.isGlobal

theorem takesRef_iff {p q : MppEncRefsImpl} {cfg : MppEncRefCfgImpl} {frm : EncFrmStatus}
    (hcfg : p.refCfg = some cfg) (h : getCpbFrm p = some (q, frm))
    (href : getRefFromCpb q.cpb frm = some ref) : TakesRef p cfg ↔ ref.isSome := by
  have hidr := (getCpbFrm_spec h).isIdr
  rw [getCpbFrm_eq, hcfg, bind_some] at h
  obtain ⟨stCfg, x, hst, hx, -⟩ := restFrm_eq_some h
  have hmode : frm.refMode = (nextRef (updateGop p) cfg stCfg).1 := by
    have := congrArg Prod.fst (statusFrm_ref hx)
    exact this
  rw [getRefFromCpb_isSome href, hidr, hmode, TakesRef, hst]
  simp

theorem updateGop_stash (p : MppEncRefsImpl) :
    updateGop (mppEncRefsStash p) = { updateGop p with cpbStash := p.cpb } := by
  unfold updateGop mppEncRefsStash
  dsimp only
  split_ifs <;> rfl

theorem takesRef_stash (p : MppEncRefsImpl) (cfg : MppEncRefCfgImpl) :
    TakesRef (mppEncRefsStash p) cfg ↔ TakesRef p cfg := by
  unfold TakesRef
  rw [updateGop_stash]
  rfl

/-- What the rollback and the user's configuration do not bring back is what was pending. -/
theorem takenBack_eq {p p₁ q : MppEncRefsImpl} {frm : EncFrmStatus}
    (h : getCpbFrm (mppEncRefsStash p) = some (q, frm)) (h' : Finished q frm status ref p₁ s) :
    ∃ c, c &&& encRefsIgopChanged = 0 ∧ c &&& encRefsRefCfgChanged = 0 ∧
      takenBack p p₁ = { mppEncRefsStash p with changed := c } := by
  have h₁ := congrArg (takenBack p) h'.outer
  have h₂ := congrArg (fun q : MppEncRefsImpl => takenBack p { q with cpb := p₁.cpb })
    (getCpbFrm_outer h).1
  refine ⟨if p.usrCfg.forceFlag ≠ 0 then 0 ||| encRefsUsrCfgChanged else 0, ?_, ?_,
    h₁.trans h₂⟩ <;> split_ifs <;> decide

/-- A frame taken back comes out the same, when the same user's configuration is handed over
    again, if and only if the changes pending do not matter to it and the status passed in
    has the same pass flag and, for a frame with a reference, the same reference. -/
theorem rollback_undoes_iff {p p₁ : MppEncRefsImpl} {cfg : MppEncRefCfgImpl}
    {status status' s : EncCpbStatus} (hcfg : p.refCfg = some cfg)
    (h : mppEncRefsGetCpb (mppEncRefsStash p) status = some (p₁, s)) :
    (mppEncRefsGetCpb (takenBack p p₁) status' = some (p₁, s) ∧
        ∀ flag, p.usrCfg.has flag → (takenBack p p₁).usrCfg.has flag) ↔
      ChangesKept p cfg ∧ status'.curr.savePass1 = status.curr.savePass1 ∧
        (TakesRef p cfg → status'.refr = status.refr) := by
  rw [mppEncRefsGetCpb_eq] at h
  obtain ⟨⟨q, frm⟩, hfrm, hfin⟩ := bind_eq_some_iff.1 h
  obtain ⟨ref, hdone⟩ := finishFrm_spec hfin
  obtain ⟨c, hci, hcc, htaken⟩ := takenBack_eq hfrm hdone
  have hcfg' : (mppEncRefsStash p).refCfg = some cfg := hcfg
  have hrefs : TakesRef p cfg ↔ ref.isSome := 
    (takesRef_stash p cfg).symm.trans (takesRef_iff hcfg' hfrm hdone.ref_eq)
  have hpass := (getCpbFrm_outer hfrm).2.2
  rw [htaken, mppEncRefsGetCpb_eq]
  constructor
  · rintro ⟨hagain, -⟩
    obtain ⟨⟨q', frm'⟩, hfrm', hfin'⟩ := bind_eq_some_iff.1 hagain
    obtain ⟨ref', hdone'⟩ := finishFrm_spec hfin'
    have hcurr := hdone.curr.symm.trans hdone'.curr
    have hkept : ChangesKept (mppEncRefsStash p) cfg :=
      changesKept_of_again hcfg' hci hcc hfrm hfrm'
      (hdone.seqCnt.symm.trans hdone'.seqCnt) (hdone.stCfgPos.symm.trans hdone'.stCfgPos)
      (hdone.stCfgRepeatPos.symm.trans hdone'.stCfgRepeatPos)
      (by have := congrArg EncFrmStatus.ref hcurr; exact this)
    -- The frame is the same, so the rest depends on the status passed in alone.
    obtain ⟨rfl, rfl⟩ := Prod.mk.inj (some.inj
      ((getCpbFrm_again hcfg' hkept hci hcc hfrm).symm.trans hfrm'))
    obtain rfl := some.inj (hdone.ref_eq.symm.trans hdone'.ref_eq)
    refine ⟨hkept, ?_, fun ht => ?_⟩
    · have := congrArg EncFrmStatus.usePass1 hcurr
      simpa [hpass] using this.symm
    · have := hdone.list0.symm.trans hdone'.list0
      rw [if_pos (hrefs.1 ht), if_pos (hrefs.1 ht)] at this
      exact this.symm
  · rintro ⟨hkept, hflag, hrefr⟩
    refine ⟨?_, fun flag hf => hf⟩
    rw [getCpbFrm_again hcfg' hkept hci hcc hfrm, bind_some,
      finishFrm_congr hdone.ref_eq hflag fun hr => hrefr (hrefs.2 hr)]
    exact hfin

/-- A flag that is not pending is not there to be done with. -/
theorem clear_of_not_has {usrCfg : MppEncRefFrmUsrCfg} {flag : UInt32} (h : ¬usrCfg.has flag) :
    usrCfg.forceFlag &&& ~~~flag = usrCfg.forceFlag := by
  have h : usrCfg.forceFlag &&& flag = 0 := not_not.1 h
  generalize usrCfg.forceFlag = x at h ⊢
  rw [← UInt32.toBitVec_inj] at h ⊢
  ext i hi
  have hb := congrArg (fun y : BitVec 32 => y[i]) h
  simp only [UInt32.toBitVec_and, UInt32.toBitVec_not, BitVec.getElem_and, BitVec.getElem_not,
    UInt32.toBitVec_zero, BitVec.getElem_zero] at hb ⊢
  cases hx : x.toBitVec[i] <;> simp_all

/-- The flags that a frame is done with. -/
def frmFlags : UInt32 :=
  encForceIdr ||| encForceLtRefIdx ||| encForceTemporalId ||| encForceRefMode |||
    encForcePskipNonRef ||| encForcePskipIsRef

theorem forceFrm_flags (p : MppEncRefsImpl) (cfg : MppEncRefCfgImpl) (frm : EncFrmStatus) :
    (forceFrm p cfg frm).1.usrCfg.forceFlag =
      p.usrCfg.forceFlag &&& ~~~encForceLtRefIdx &&& ~~~encForceTemporalId &&&
        ~~~encForceRefMode &&& ~~~encForcePskipNonRef &&& ~~~encForcePskipIsRef := by
  have h₁ (p frm) : (forceLtRefIdx p frm).1.usrCfg.forceFlag =
      p.usrCfg.forceFlag &&& ~~~encForceLtRefIdx := by
    unfold forceLtRefIdx
    split_ifs with h
    · rfl
    · exact (clear_of_not_has h).symm
  have h₂ (p frm) : (forceTemporalId p cfg frm).1.usrCfg.forceFlag =
      p.usrCfg.forceFlag &&& ~~~encForceTemporalId := by
    unfold forceTemporalId
    split_ifs with h
    · rfl
    · rfl
    · exact (clear_of_not_has h).symm
  have h₃ (p frm) : (forceRefMode p frm).1.usrCfg.forceFlag =
      p.usrCfg.forceFlag &&& ~~~encForceRefMode := by
    unfold forceRefMode
    split_ifs with h
    · rfl
    · exact (clear_of_not_has h).symm
  have h₄ (p frm) : (forcePskipNonRef p frm).1.usrCfg.forceFlag =
      p.usrCfg.forceFlag &&& ~~~encForcePskipNonRef := by
    unfold forcePskipNonRef
    split_ifs with h
    · rfl
    · exact (clear_of_not_has h).symm
  have h₅ (p frm) : (forcePskipIsRef p frm).1.usrCfg.forceFlag =
      p.usrCfg.forceFlag &&& ~~~encForcePskipIsRef := by
    unfold forcePskipIsRef
    split_ifs with h
    · rfl
    · exact (clear_of_not_has h).symm
  unfold forceFrm
  dsimp only
  rw [h₅, h₄, h₃, h₂, h₁]

theorem updateGop_flags (p : MppEncRefsImpl) :
    (updateGop p).usrCfg.forceFlag = p.usrCfg.forceFlag &&& ~~~encForceIdr := by
  by_cases h : p.usrCfg.has encForceIdr
  · by_cases hg : p.igop ≠ 0 ∧ (p.cpb.seqIdx : ℤ) ≥ p.igop
    · by_cases hr : p.refreshLength ≠ 0
      · simp only [updateGop, if_pos hg, if_pos hr, if_pos h, if_true, MppEncRefFrmUsrCfg.clear]
      · simp only [updateGop, if_pos hg, if_neg hr, if_pos h, if_true, MppEncRefFrmUsrCfg.clear]
    · simp only [updateGop, if_neg hg, if_pos h, if_true, MppEncRefFrmUsrCfg.clear]
  · rw [clear_of_not_has h]
    unfold updateGop
    split_ifs <;> simp only [] <;> split_ifs <;> rfl

/-- The rollback alone brings back nothing that the user forced: this is what
    `mpp_enc_force_pskip` leaves to the next call when its check refuses the frame. -/
theorem rollback_flags {p p₁ : MppEncRefsImpl} (h : mppEncRefsGetCpb p status = some (p₁, s)) :
    (mppEncRefsRollback p₁).usrCfg.forceFlag = p.usrCfg.forceFlag &&& ~~~frmFlags := by
  rw [mppEncRefsGetCpb_eq] at h
  obtain ⟨⟨q, frm⟩, hfrm, hfin⟩ := bind_eq_some_iff.1 h
  obtain ⟨ref, hdone⟩ := finishFrm_spec hfin
  have hq := congrArg (fun x : MppEncRefsImpl => (mppEncRefsRollback x).usrCfg) hdone.outer
  have hq : (mppEncRefsRollback p₁).usrCfg = q.usrCfg := hq
  rw [getCpbFrm_eq] at hfrm
  obtain ⟨cfg, -, hfrm⟩ := bind_eq_some_iff.1 hfrm
  obtain ⟨stCfg, x, -, hx, rfl⟩ := restFrm_eq_some hfrm
  rw [statusFrm_eq] at hx
  obtain ⟨flags, -, hx⟩ := map_eq_some_iff.1 hx
  obtain ⟨rfl, -⟩ := Prod.mk.inj hx
  rw [hq]
  refine (forceFrm_flags _ _ _).trans ?_
  have hu : (updateGop p).usrCfg.forceFlag = _ := updateGop_flags p
  simp only [ltCounted, hu, UInt32.and_assoc]
  congr 1

/-- The interval of intra frames is changed, and the frame that restarts the gop for it is
    taken back: the same frame comes out as an inter frame. -/
theorem igop_change_lost :
    ∃ p p₁ p₂ s s₂, refsMachine.Reachable p ∧
      mppEncRefsGetCpb (mppEncRefsStash p) default = some (p₁, s) ∧
      mppEncRefsGetCpb (takenBack p p₁) s = some (p₂, s₂) ∧
      s.curr.isIdr = true ∧ s₂.curr.isIdr = false ∧ p₁.cpb.seqCnt ≠ p₂.cpb.seqCnt := by
  have hrun : ((Machine.run refsStep ShortGop mppEncRefsInit
      [.setCfg none, .getCpb default, .setRcIgop 5]).any fun p =>
        (mppEncRefsGetCpb (mppEncRefsStash p) default).any fun x =>
          (mppEncRefsGetCpb (takenBack p x.1) x.2).any fun y =>
            x.2.curr.isIdr && !y.2.curr.isIdr && x.1.cpb.seqCnt != y.1.cpb.seqCnt) = true := by
    decide
  obtain ⟨p, hp, hv⟩ := (any_eq_true _ _).1 hrun
  obtain ⟨⟨p₁, s⟩, hget, hv⟩ := (any_eq_true _ _).1 hv
  obtain ⟨⟨p₂, s₂⟩, hget', hv⟩ := (any_eq_true _ _).1 hv
  simp only [Bool.and_eq_true, Bool.not_eq_true', bne_iff_ne, ne_eq] at hv
  have hreach := (Machine.Reachable.run (.init rfl) hp).of_guarded
  exact ⟨p, p₁, p₂, s, s₂, hreach, hget, hget', hv.1.1, hv.1.2, hv.2⟩

/-- A forced IDR frame comes out the same: here the second frame of the default
    configuration. -/
theorem rollback_undoes_iff_idr :
    ∃ p p₁ s, mppEncRefsGetCpb (mppEncRefsStash p) default = some (p₁, s) ∧
      p.usrCfg.has encForceIdr ∧ mppEncRefsGetCpb (takenBack p p₁) default = some (p₁, s) := by
  have hrun : ((Machine.run refsStep ShortGop mppEncRefsInit
      [.setCfg none, .getCpb default, .setUsrCfg { (0 : MppEncRefFrmUsrCfg) with forceFlag := 1 }]).any
      fun p => (p.refCfg == some mppEncRefDefault && decide (p.usrCfg.has encForceIdr)) &&
        (mppEncRefsGetCpb (mppEncRefsStash p) default).isSome) = true := by
    decide
  obtain ⟨p, -, hv⟩ := (any_eq_true _ _).1 hrun
  simp only [Bool.and_eq_true, beq_iff_eq, decide_eq_true_eq] at hv
  obtain ⟨⟨hcfg, hidr⟩, hsome⟩ := hv
  obtain ⟨⟨p₁, s⟩, hget⟩ := isSome_iff_exists.1 hsome
  exact ⟨p, p₁, s, hget, hidr,
    ((rollback_undoes_iff hcfg hget).2 ⟨.inl (.inr hidr), rfl, fun _ => rfl⟩).1⟩

end Libmpp.EncRef
