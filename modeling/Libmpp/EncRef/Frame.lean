import Libmpp.EncRef.Refs

/-!
# What the steps of a frame do

One specification for each function `mppEncRefsGetCpb` goes through, so that the
results about it do not open the functions again.

* The gop restarts (`Restarts`) or goes on; the tables are emptied or kept
  (`updateGop_of_restarts`, `updateGop_of_not_restarts`).
* The status of the frame is built in steps that all keep its stamp
  (`SameStamp`): being valid, its number in the gop, being IDR or intra.
* Up to the storing of the frame the tables are left alone (`getCpbFrm_spec`).
-/

namespace Libmpp.EncRef

/-! ## Restart of the gop -/

/-- The interval of intra frames is over. -/
def GopEnd (p : MppEncRefsImpl) : Prop := p.igop ≠ 0 ∧ (p.cpb.seqIdx : ℤ) ≥ p.igop

/-- A change of the interval of intra frames is pending. -/
def IgopChanged (p : MppEncRefsImpl) : Prop := p.changed &&& encRefsIgopChanged ≠ 0

/-- The next frame restarts the gop. -/
def Restarts (p : MppEncRefsImpl) : Prop :=
  IgopChanged p ∨ (GopEnd p ∧ p.refreshLength = 0) ∨ p.usrCfg.has encForceIdr

instance (p : MppEncRefsImpl) : Decidable (GopEnd p) := inferInstanceAs (Decidable (_ ∧ _))

instance (p : MppEncRefsImpl) : Decidable (IgopChanged p) := inferInstanceAs (Decidable (_ ≠ _))

instance (p : MppEncRefsImpl) : Decidable (Restarts p) := inferInstanceAs (Decidable (_ ∨ _))

/-- The tables of two buffers are the same, whatever their counters are. -/
structure SameTables (cpb cpb' : EncVirtualCpb) : Prop where
  info : cpb'.info = cpb.info
  cpbRefs : cpb'.cpbRefs = cpb.cpbRefs
  modeRefs : cpb'.modeRefs = cpb.modeRefs
  stTidRefs : cpb'.stTidRefs = cpb.stTidRefs
  ltIdxRefs : cpb'.ltIdxRefs = cpb.ltIdxRefs

namespace SameTables

variable {cpb₁ cpb₂ cpb₃ : EncVirtualCpb}

theorem rfl' : SameTables cpb₁ cpb₁ := ⟨rfl, rfl, rfl, rfl, rfl⟩

theorem trans (h : SameTables cpb₁ cpb₂) (h' : SameTables cpb₂ cpb₃) : SameTables cpb₁ cpb₃ :=
  ⟨h'.info.trans h.info, h'.cpbRefs.trans h.cpbRefs, h'.modeRefs.trans h.modeRefs,
    h'.stTidRefs.trans h.stTidRefs, h'.ltIdxRefs.trans h.ltIdxRefs⟩

end SameTables

/-- What the restart decision leaves of the manager. -/
structure SameSetup (p p' : MppEncRefsImpl) : Prop where
  refCfg : p'.refCfg = p.refCfg
  igop : p'.igop = p.igop
  refreshLength : p'.refreshLength = p.refreshLength
  cpbStash : p'.cpbStash = p.cpbStash

theorem SameSetup.trans {p₁ p₂ p₃ : MppEncRefsImpl} (h : SameSetup p₁ p₂) (h' : SameSetup p₂ p₃) :
    SameSetup p₁ p₃ :=
  ⟨h'.refCfg.trans h.refCfg, h'.igop.trans h.igop, h'.refreshLength.trans h.refreshLength,
    h'.cpbStash.trans h.cpbStash⟩

theorem updateGop_setup (p : MppEncRefsImpl) : SameSetup p (updateGop p) := by
  unfold updateGop
  split_ifs <;> constructor <;> simp only [] <;> split_ifs <;> rfl

/-- A restart empties the tables. -/
theorem updateGop_of_restarts {p : MppEncRefsImpl} (h : Restarts p) :
    ∃ n, (updateGop p).cpb = { cleanupCpbRefs p.cpb with seqCnt := n } := by
  by_cases hg : GopEnd p <;> by_cases hr : p.refreshLength = 0 <;>
    by_cases hi : p.usrCfg.has encForceIdr <;> by_cases hc : IgopChanged p <;>
    simp only [Restarts, hg, hr, hi, hc, and_false, false_and, or_self] at h <;>
    simp only [IgopChanged, GopEnd] at hc hg <;>
    simp only [updateGop, hg, hr, hi, hc, ne_eq, not_true_eq_false, not_false_eq_true, and_self,
      decide_true, decide_false, ↓reduceIte] <;>
    exact ⟨_, rfl⟩

/-- Without a restart the tables are kept, and the gop goes on. -/
theorem updateGop_of_not_restarts {p : MppEncRefsImpl} (h : ¬Restarts p) :
    SameTables p.cpb (updateGop p).cpb ∧ (updateGop p).cpb.seqIdx = p.cpb.seqIdx ∧
      (updateGop p).cpb.frmIdx = p.cpb.frmIdx ∧ (updateGop p).cpb.ltCnter = p.cpb.ltCnter := by
  unfold Restarts IgopChanged GopEnd at h
  obtain ⟨hc, hg, hi⟩ := by simpa only [not_or] using h
  by_cases hg' : p.igop ≠ 0 ∧ (p.cpb.seqIdx : ℤ) ≥ p.igop
  · have hr : p.refreshLength ≠ 0 := fun hr => hg ⟨hg', hr⟩
    simp only [updateGop, if_pos hg', if_pos hr, if_neg hi, hc, decide_false, Bool.false_eq_true,
      ↓reduceIte]
    split_ifs <;> exact ⟨⟨rfl, rfl, rfl, rfl, rfl⟩, rfl, rfl, rfl⟩
  · simp only [updateGop, if_neg hg', if_neg hi, hc, decide_false, Bool.false_eq_true, ↓reduceIte]
    split_ifs <;> exact ⟨⟨rfl, rfl, rfl, rfl, rfl⟩, rfl, rfl, rfl⟩

theorem updateGop_info (p : MppEncRefsImpl) : (updateGop p).cpb.info = p.cpb.info := by
  by_cases hr : Restarts p
  · obtain ⟨n, hn⟩ := updateGop_of_restarts hr
    rw [hn]
    rfl
  · exact (updateGop_of_not_restarts hr).1.info

/-! ## The status of a frame -/

/-- Two statuses of one frame: both valid or not, with the same number in the
    gop, both IDR or intra or not. -/
structure SameStamp (frm frm' : EncFrmStatus) : Prop where
  valid : frm'.valid = frm.valid
  seqIdx : frm'.seqIdx = frm.seqIdx
  isIdr : frm'.isIdr = frm.isIdr
  isIntra : frm'.isIntra = frm.isIntra

namespace SameStamp

variable {frm₁ frm₂ frm₃ : EncFrmStatus}

theorem rfl' : SameStamp frm₁ frm₁ := ⟨rfl, rfl, rfl, rfl⟩

theorem trans (h : SameStamp frm₁ frm₂) (h' : SameStamp frm₂ frm₃) : SameStamp frm₁ frm₃ :=
  ⟨h'.valid.trans h.valid, h'.seqIdx.trans h.seqIdx, h'.isIdr.trans h.isIdr,
    h'.isIntra.trans h.isIntra⟩

end SameStamp

/-- The refresh marks leave the rest of the status alone. -/
theorem setFrmRefreshFlag_spec {p : MppEncRefsImpl} {frm frm' : EncFrmStatus}
    (h : setFrmRefreshFlag p frm = some frm') :
    ∃ refresh recovery, frm' = { frm with isIRefresh := refresh, isIRecovery := recovery } := by
  unfold setFrmRefreshFlag at h
  split_ifs at h
  · exact ⟨_, _, (Option.some.inj h).symm⟩
  · exact ⟨_, _, (Option.some.inj h).symm⟩

/-- What a round of the long-term counters makes of a frame: either nothing, or
    the long-term frame of one of the counters. -/
inductive LtOf (idx : ℤ → Prop) (frm : EncFrmStatus) : EncFrmStatus → Prop
  | keep : LtOf idx frm frm
  | claim (c : RefsCnt) : idx c.ltIdx → LtOf idx frm (setLtCfgToFrm frm c)

theorem LtOf.sameStamp {idx : ℤ → Prop} {frm frm' : EncFrmStatus} (h : LtOf idx frm frm') :
    SameStamp frm frm' := by
  cases h with
  | keep => exact .rfl'
  | claim c _ =>
    unfold setLtCfgToFrm
    split_ifs <;> exact ⟨rfl, rfl, rfl, rfl⟩

/-- A counter keeps its index, and claims a frame only while none is claimed. -/
theorem ltCfgStep_spec (c : RefsCnt) (frm : EncFrmStatus) (b : Bool) :
    (ltCfgStep c frm b).1.ltIdx = c.ltIdx ∧
      ((ltCfgStep c frm b).2 = (frm, b) ∨
        b = false ∧ (ltCfgStep c frm b).2 = (setLtCfgToFrm frm c, true)) := by
  unfold ltCfgStep
  split_ifs <;> simp_all <;> split_ifs <;> simp

/-- After some rounds of the counters: they keep their indices, and at most one
    of them has claimed the frame. -/
structure LtRounds (cnt : ℕ) (ltCnter : Vector RefsCnt maxCpbLtFrm) (frm : EncFrmStatus)
    (s : Vector RefsCnt maxCpbLtFrm × EncFrmStatus × Bool) : Prop where
  ltIdx : ∀ i, (s.1.get i).ltIdx = (ltCnter.get i).ltIdx
  free : s.2.2 = false → s.2.1 = frm
  ltOf : LtOf (fun k => ∃ i : Fin maxCpbLtFrm, i < cnt ∧ (ltCnter.get i).ltIdx = k) frm s.2.1

theorem LtRounds.round {cnt : ℕ} {ltCnter : Vector RefsCnt maxCpbLtFrm} {frm : EncFrmStatus}
    {s : Vector RefsCnt maxCpbLtFrm × EncFrmStatus × Bool} (h : LtRounds cnt ltCnter frm s)
    (i : Fin maxCpbLtFrm) : LtRounds cnt ltCnter frm (ltCfgRound cnt s i) := by
  obtain ⟨v, f, b⟩ := s
  obtain ⟨hidx, hfree, hlt⟩ := h
  unfold ltCfgRound
  dsimp only
  split_ifs with hi
  · obtain ⟨hc, hs⟩ := ltCfgStep_spec (v.get i) f b
    have hidx' : ∀ j, ((v.set i (ltCfgStep (v.get i) f b).1).get j).ltIdx = (ltCnter.get j).ltIdx :=
      fun j => by
      rw [← hidx j]
      by_cases hij : i = j
      · subst hij
        simpa [Vector.get_eq_getElem] using hc
      · have := Fin.val_ne_of_ne hij
        simp [Vector.get_eq_getElem, this]
    generalize ltCfgStep (v.get i) f b = t at hidx' hs ⊢
    obtain ⟨c, f', b'⟩ := t
    rcases hs with hs | ⟨hb, hs⟩ <;> obtain ⟨rfl, rfl⟩ := Prod.mk.inj hs
    · exact ⟨hidx', hfree, hlt⟩
    · obtain rfl : f = frm := hfree hb
      exact ⟨hidx', nofun, .claim _ ⟨i, hi, (hidx i).symm⟩⟩
  · exact ⟨hidx, hfree, hlt⟩

/-- The counters keep their indices, and at most one of them claims the frame. -/
theorem ltCfgLoop_spec (cnt : ℕ) (ltCnter : Vector RefsCnt maxCpbLtFrm) (frm : EncFrmStatus) :
    (∀ i, ((ltCfgLoop cnt ltCnter frm).1.get i).ltIdx = (ltCnter.get i).ltIdx) ∧
      LtOf (fun k => ∃ i : Fin maxCpbLtFrm, i < cnt ∧ (ltCnter.get i).ltIdx = k) frm
        (ltCfgLoop cnt ltCnter frm).2 := by
  have hrounds : ∀ (l : List (Fin maxCpbLtFrm)) s, LtRounds cnt ltCnter frm s →
      LtRounds cnt ltCnter frm (l.foldl (ltCfgRound cnt) s) := by
    intro l
    induction l with
    | nil => exact fun _ h => h
    | cons i l ih => exact fun s h => ih _ (h.round i)
  have := hrounds (List.finRange _) (ltCnter, frm, false) ⟨fun _ => rfl, fun _ => rfl, .keep⟩
  exact ⟨this.ltIdx, this.ltOf⟩

/-- A step that changes neither the setup nor the tables, nor the place in the gop. -/
structure Keeps (p p' : MppEncRefsImpl) : Prop where
  setup : SameSetup p p'
  tables : SameTables p.cpb p'.cpb
  ltIdx : ∀ i, (p'.cpb.ltCnter.get i).ltIdx = (p.cpb.ltCnter.get i).ltIdx
  seqIdx : p'.cpb.seqIdx = p.cpb.seqIdx
  frmIdx : p'.cpb.frmIdx = p.cpb.frmIdx

namespace Keeps

variable {p₁ p₂ p₃ : MppEncRefsImpl}

theorem rfl' : Keeps p₁ p₁ := ⟨⟨rfl, rfl, rfl, rfl⟩, .rfl', fun _ => rfl, rfl, rfl⟩

theorem trans (h : Keeps p₁ p₂) (h' : Keeps p₂ p₃) : Keeps p₁ p₃ :=
  ⟨h.setup.trans h'.setup, h.tables.trans h'.tables, fun i => (h'.ltIdx i).trans (h.ltIdx i),
    h'.seqIdx.trans h.seqIdx, h'.frmIdx.trans h.frmIdx⟩

end Keeps

/-- A step that keeps the manager as `Keeps` says, and the stamp of the frame. -/
structure Harmless (p : MppEncRefsImpl) (frm : EncFrmStatus)
    (s : MppEncRefsImpl × EncFrmStatus) : Prop where
  keeps : Keeps p s.1
  stamp : SameStamp frm s.2

namespace Harmless

variable {p : MppEncRefsImpl} {frm : EncFrmStatus}

theorem rfl' : Harmless p frm (p, frm) := ⟨.rfl', .rfl'⟩

theorem trans {s s' : MppEncRefsImpl × EncFrmStatus} (h : Harmless p frm s)
    (h' : Harmless s.1 s.2 s') : Harmless p frm s' :=
  ⟨h.keeps.trans h'.keeps, h.stamp.trans h'.stamp⟩

end Harmless

/-- What the user forces is harmless. -/
theorem forceFrm_spec (p : MppEncRefsImpl) (cfg : MppEncRefCfgImpl) (frm : EncFrmStatus) :
    Harmless p frm (forceFrm p cfg frm) := by
  have mk : ∀ {p q : MppEncRefsImpl} {frm frm' : EncFrmStatus} {pos rep : ℕ},
      q.refCfg = p.refCfg → q.igop = p.igop → q.refreshLength = p.refreshLength →
      q.cpbStash = p.cpbStash → q.cpb = { p.cpb with stCfgPos := pos, stCfgRepeatPos := rep } →
      SameStamp frm frm' → Harmless p frm (q, frm') := by
    intro p q frm frm' pos rep h₁ h₂ h₃ h₄ hcpb hstamp
    refine ⟨⟨⟨h₁, h₂, h₃, h₄⟩, ?_, ?_, ?_, ?_⟩, hstamp⟩ <;> rw [hcpb]
    · exact ⟨rfl, rfl, rfl, rfl, rfl⟩
    · exact fun _ => rfl
  have h₁ : ∀ p frm, Harmless p frm (forceLtRefIdx p frm) := fun p frm => by
    unfold forceLtRefIdx
    split_ifs
    · dsimp only
      split_ifs <;> exact mk rfl rfl rfl rfl rfl ⟨rfl, rfl, rfl, rfl⟩
    · exact .rfl'
  have h₂ : ∀ p frm, Harmless p frm (forceTemporalId p cfg frm) := fun p frm => by
    unfold forceTemporalId
    split_ifs <;> exact mk rfl rfl rfl rfl rfl ⟨rfl, rfl, rfl, rfl⟩
  have h₃ : ∀ p frm, Harmless p frm (forceRefMode p frm) := fun p frm => by
    unfold forceRefMode
    split_ifs <;> exact mk rfl rfl rfl rfl rfl ⟨rfl, rfl, rfl, rfl⟩
  have h₄ : ∀ p frm, Harmless p frm (forcePskipNonRef p frm) := fun p frm => by
    unfold forcePskipNonRef
    split_ifs <;> exact mk rfl rfl rfl rfl rfl ⟨rfl, rfl, rfl, rfl⟩
  have h₅ : ∀ p frm, Harmless p frm (forcePskipIsRef p frm) := fun p frm => by
    unfold forcePskipIsRef
    split_ifs <;> exact mk rfl rfl rfl rfl rfl ⟨rfl, rfl, rfl, rfl⟩
  exact (((h₁ _ _).trans (h₂ _ _)).trans (h₃ _ _)).trans ((h₄ _ _).trans (h₅ _ _))

/-- The long-term entries are harmless, but for the claim of the frame. -/
theorem ltCfgFrm_spec (p : MppEncRefsImpl) (cfg : MppEncRefCfgImpl) (frm : EncFrmStatus) :
    Harmless p frm (ltCfgFrm p cfg frm) := by
  obtain ⟨hidx, hlt⟩ := ltCfgLoop_spec cfg.ltCfg.length p.cpb.ltCnter frm
  exact ⟨⟨⟨rfl, rfl, rfl, rfl⟩, ⟨rfl, rfl, rfl, rfl, rfl⟩, hidx, rfl, rfl⟩, hlt.sameStamp⟩

theorem nextStCfg_spec (p : MppEncRefsImpl) (stCfg : MppEncRefStFrmCfg) :
    Keeps p { p with cpb := nextStCfg p.cpb stCfg } := by
  unfold nextStCfg
  dsimp only
  split_ifs <;>
    exact ⟨⟨rfl, rfl, rfl, rfl⟩, ⟨rfl, rfl, rfl, rfl, rfl⟩, fun _ => rfl, rfl, rfl⟩

/-- The manager with one more frame in the gop. -/
def bumpSeqIdx (p : MppEncRefsImpl) : MppEncRefsImpl :=
  { p with cpb := { p.cpb with seqIdx := p.cpb.seqIdx + 1 } }

variable {p p' : MppEncRefsImpl}

/-- The status by the short-term entry is stamped with the number in the gop. -/
theorem stCfgFrm_spec {stCfg : MppEncRefStFrmCfg} {frm : EncFrmStatus}
    (h : stCfgFrm p stCfg = some (p', frm)) :
    p' = bumpSeqIdx p ∧ SameStamp (setStCfgToFrm p.cpb.seqIdx stCfg) frm ∧
      frm.isLtRef = false := by
  obtain ⟨frm₀, hrefresh, h⟩ := Option.map_eq_some_iff.1 h
  obtain ⟨_, _, rfl⟩ := setFrmRefreshFlag_spec hrefresh
  obtain ⟨rfl, rfl⟩ := Prod.mk.inj h
  exact ⟨rfl, ⟨rfl, rfl, rfl, rfl⟩, rfl⟩

/-- What the steps before the reference lookup do: the frame is stamped with its
    number in the gop, which goes on by one; the tables are those after the
    restart decision. -/
structure FrmStep (p p' : MppEncRefsImpl) (frm : EncFrmStatus) : Prop where
  setup : SameSetup p p'
  tables : SameTables (updateGop p).cpb p'.cpb
  ltIdx : ∀ i, (p'.cpb.ltCnter.get i).ltIdx = ((updateGop p).cpb.ltCnter.get i).ltIdx
  seqIdx_cpb : p'.cpb.seqIdx = (updateGop p).cpb.seqIdx + 1
  frmIdx_cpb : p'.cpb.frmIdx = (updateGop p).cpb.frmIdx + 1
  valid : frm.valid = true
  seqIdx : frm.seqIdx = truncTo _ (updateGop p).cpb.seqIdx
  isIdr : frm.isIdr = decide ((updateGop p).cpb.seqIdx = 0)
  isIntra : frm.isIntra = decide ((updateGop p).cpb.seqIdx = 0)

theorem getCpbFrm_spec {frm : EncFrmStatus}
    (h : getCpbFrm p = some (p', frm)) : FrmStep p p' frm := by
  simp only [getCpbFrm, Option.bind_eq_bind, Option.bind_eq_some_iff, Option.some.injEq,
    Prod.mk.injEq] at h
  obtain ⟨cfg, -, stCfg, -, ⟨p₁, frm₁⟩, hst, rfl, rfl⟩ := h
  obtain ⟨rfl, hstamp, -⟩ := stCfgFrm_spec hst
  have hsteps := (ltCfgFrm_spec (bumpSeqIdx (beginFrm p cfg)) cfg frm₁).trans
    (forceFrm_spec _ cfg _)
  have hkeeps := hsteps.keeps.trans (nextStCfg_spec _ stCfg)
  have hstamp := hstamp.trans hsteps.stamp
  have hsetup : SameSetup p (bumpSeqIdx (beginFrm p cfg)) :=
    (updateGop_setup p).trans ⟨rfl, rfl, rfl, rfl⟩
  have htables : SameTables (updateGop p).cpb (bumpSeqIdx (beginFrm p cfg)).cpb :=
    ⟨rfl, rfl, rfl, rfl, rfl⟩
  exact
    { setup := hsetup.trans hkeeps.setup
      tables := htables.trans hkeeps.tables
      ltIdx := hkeeps.ltIdx
      seqIdx_cpb := hkeeps.seqIdx
      frmIdx_cpb := hkeeps.frmIdx
      valid := hstamp.valid
      seqIdx := hstamp.seqIdx
      isIdr := hstamp.isIdr
      isIntra := hstamp.isIntra }

/-- A new configuration sets the sizes and the indices of the counters. -/
theorem mppEncRefsSetCfg_info {refCfg : Option MppEncRefCfgImpl}
    (h : mppEncRefsSetCfg p refCfg = some p') :
    p'.refCfg = some (refCfg.getD mppEncRefDefault) ∧
      p'.cpb.info = (refCfg.getD mppEncRefDefault).cpbInfo ∧
      (refCfg.getD mppEncRefDefault).ltCfg.length ≤ maxCpbLtFrm ∧
      ∀ (i : Fin maxCpbLtFrm) ltCfg, (refCfg.getD mppEncRefDefault).ltCfg[i.val]? = some ltCfg →
        (p'.cpb.ltCnter.get i).ltIdx = ltCfg.ltIdx := by
  unfold mppEncRefsSetCfg at h
  dsimp only at h
  split at h
  · rename_i hlen
    obtain rfl := Option.some.inj h
    refine ⟨rfl, rfl, hlen, fun i ltCfg hi => ?_⟩
    simp only [Vector.get_eq_getElem, Vector.getElem_ofFn, hi]
    rfl
  · exact absurd h (by simp)

/-! ## A whole frame -/

/-- A frame taken apart: `p₁` and `frm` are the manager and the status before the
    reference lookup, `ref` is the reference found. -/
structure GetCpbStep (p : MppEncRefsImpl) (p' : MppEncRefsImpl) (st' : EncCpbStatus)
    (p₁ : MppEncRefsImpl) (frm : EncFrmStatus) (ref : Option EncFrmStatus) : Prop where
  frm_eq : getCpbFrm p = some (p₁, frm)
  ref_eq : getRefFromCpb p₁.cpb frm = some ref
  curr : ∃ pass1, st'.curr = { frm with usePass1 := pass1 }
  refr : st'.refr = ref.getD 0
  init : cpbSnapshot p₁.cpb = some st'.init
  cpb : ∃ refr, p' = { p₁ with cpb := storeRefToCpb { p₁.cpb with list0 := refr } st'.curr }
  final : cpbSnapshot p'.cpb = some st'.final

theorem setRefr_spec (cpb : EncVirtualCpb) (ref : Option EncFrmStatus) (refr : EncFrmStatus) :
    (∃ r, (setRefr cpb ref refr).1 = { cpb with list0 := r }) ∧
      (setRefr cpb ref refr).2 = ref.getD 0 := by
  cases ref with
  | none => exact ⟨⟨cpb.list0, rfl⟩, rfl⟩
  | some ref => exact ⟨⟨_, rfl⟩, rfl⟩

theorem mppEncRefsGetCpb_spec {st st' : EncCpbStatus}
    (h : mppEncRefsGetCpb p st = some (p', st')) :
    ∃ p₁ frm ref, GetCpbStep p p' st' p₁ frm ref := by
  simp only [mppEncRefsGetCpb, Option.bind_eq_bind, Option.bind_eq_some_iff, Option.some.injEq,
    Prod.mk.injEq] at h
  obtain ⟨⟨p₁, frm⟩, hfrm, ref, href, init, hinit, final, hfinal, rfl, rfl⟩ := h
  obtain ⟨⟨r, hr⟩, hrefr⟩ := setRefr_spec p₁.cpb ref st.refr
  rw [hr] at hinit hfinal ⊢
  refine ⟨p₁, frm, ref, hfrm, href, ?_, hrefr, hinit, ⟨r, rfl⟩, hfinal⟩
  dsimp only
  split_ifs
  · exact ⟨true, rfl⟩
  · exact ⟨frm.usePass1, rfl⟩

/-- A first-pass frame is not stored: it leaves all but the first frame of list 0. -/
theorem mppEncRefsGetCpbPass1_spec {st st' : EncCpbStatus}
    (h : mppEncRefsGetCpbPass1 p st = some (p', st')) :
    ∃ refr, p' = { p with cpb := { p.cpb with list0 := refr } } := by
  simp only [mppEncRefsGetCpbPass1, Option.bind_eq_bind, Option.bind_eq_some_iff,
    Option.some.injEq, Prod.mk.injEq] at h
  obtain ⟨ref, -, init, -, final, -, rfl, -⟩ := h
  obtain ⟨⟨r, hr⟩, -⟩ := setRefr_spec p.cpb ref st.refr
  exact ⟨r, by rw [hr]; rfl⟩

end Libmpp.EncRef
