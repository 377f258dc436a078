import Libmpp.EncRef.Invariant

/-!
# The prediction of intra frames

`mppEncRefsNextFrmIsIntra` repeats the restart decision of `mppEncRefsGetCpb`
without the length of the intra refresh, which keeps a gop from ending. The two
agree but for that case (`nextFrmIsIntra_iff`): at the end of an interval inside
an intra refresh, an intra frame is predicted and another one is produced
(`nextFrmIsIntra_refresh`).
-/

namespace Libmpp.EncRef

/-- A frame has been produced in the gop if one has been produced at all. -/
def GopBegun (cpb : EncVirtualCpb) : Prop := 0 < cpb.frmIdx → 0 < cpb.seqIdx

theorem gopBegun_zero : GopBegun 0 := fun h => absurd h (lt_irrefl 0)

theorem gopBegun_step {p p' : MppEncRefsImpl} {op : RefsOp}
    (h : GopBegun p.cpb ∧ GopBegun p.cpbStash) (hstep : refsStep p op = some p') :
    GopBegun p'.cpb ∧ GopBegun p'.cpbStash := by
  refine refsStep_cpb h hstep (fun _ _ hcpb => hcpb) ?_ ?_
  · rintro refCfg - hset
    unfold mppEncRefsSetCfg at hset
    dsimp only at hset
    split_ifs at hset <;> obtain rfl := Option.some.inj hset
    · exact h.1
    · exact gopBegun_zero
  · rintro st st' - hget -
    obtain ⟨p₁, frm, ref, hframe⟩ := mppEncRefsGetCpb_spec hget
    rw [hframe.seqIdx, (getCpbFrm_spec hframe.frm_eq).seqIdx_cpb]
    exact Nat.succ_pos _

theorem reachable_gopBegun {p : MppEncRefsImpl} (h : refsMachine.Reachable p) :
    GopBegun p.cpb ∧ GopBegun p.cpbStash := by
  refine Machine.Reachable.invariant (P := fun p => GopBegun p.cpb ∧ GopBegun p.cpbStash) ?_ ?_ h
  · rintro _ rfl
    exact ⟨gopBegun_zero, gopBegun_zero⟩
  · exact fun _ _ _ _ hp hstep => gopBegun_step hp hstep

/-- The frame is intra exactly when the gop restarts, once it has begun. -/
theorem isIntra_iff_restarts {p p₁ : MppEncRefsImpl} {frm : EncFrmStatus}
    (hbegun : 0 < p.cpb.seqIdx) (h : FrmStep p p₁ frm) : frm.isIntra ↔ Restarts p := by
  rw [h.isIntra, decide_eq_true_iff]
  by_cases hr : Restarts p
  · obtain ⟨n, hn⟩ := updateGop_of_restarts hr
    rw [hn]
    exact iff_of_true rfl hr
  · rw [(updateGop_of_not_restarts hr).2.1]
    exact iff_of_false hbegun.ne' hr

/-- The prediction is the restart decision without the length of the refresh. -/
theorem nextFrmIsIntra_iff_gopEnd {p : MppEncRefsImpl} (hfrm : 0 < p.cpb.frmIdx) :
    mppEncRefsNextFrmIsIntra p ↔ IgopChanged p ∨ GopEnd p ∨ p.usrCfg.has encForceIdr := by
  simp only [mppEncRefsNextFrmIsIntra, hfrm.ne', ↓reduceIte, Bool.or_eq_true, decide_eq_true_eq,
    IgopChanged, GopEnd, or_assoc]

/-- In every reachable state, the prediction of the next frame is right, unless the
    interval ends inside an intra refresh and nothing else restarts the gop. -/
theorem nextFrmIsIntra_iff {p p' : MppEncRefsImpl} {st st' : EncCpbStatus}
    (hp : refsMachine.Reachable p) (hfrm : 0 < p.cpb.frmIdx)
    (h : mppEncRefsGetCpb p st = some (p', st')) :
    (mppEncRefsNextFrmIsIntra p ↔ st'.curr.isIntra) ↔
      ¬(GopEnd p ∧ p.refreshLength ≠ 0 ∧ ¬IgopChanged p ∧ ¬p.usrCfg.has encForceIdr) := by
  obtain ⟨p₁, frm, ref, hstep⟩ := mppEncRefsGetCpb_spec h
  obtain ⟨_, hcurr⟩ := hstep.curr
  have hcurr' : st'.curr.isIntra = frm.isIntra := by rw [hcurr]
  have hintra : st'.curr.isIntra ↔ Restarts p := by
    rw [hcurr']
    exact isIntra_iff_restarts ((reachable_gopBegun hp).1 hfrm) (getCpbFrm_spec hstep.frm_eq)
  rw [hintra, nextFrmIsIntra_iff_gopEnd hfrm, Restarts]
  by_cases hg : GopEnd p <;> by_cases hr : p.refreshLength = 0 <;>
    by_cases hc : IgopChanged p <;> by_cases hi : p.usrCfg.has encForceIdr <;>
    simp [hg, hr, hc, hi]

/-- Two frames of a gop of two, the second at the start of an intra refresh. -/
def refreshOps : List RefsOp :=
  [.setCfg none, .setRcIgop 2, .getCpb default, .setRefreshLength 1, .getCpb default]

/-- After these calls an intra frame is predicted, and the next frame is not intra. -/
theorem nextFrmIsIntra_refresh :
    ∃ p p' st', refsMachine.Reachable p ∧ 0 < p.cpb.frmIdx ∧
      mppEncRefsGetCpb p default = some (p', st') ∧
      ¬(mppEncRefsNextFrmIsIntra p ↔ st'.curr.isIntra) := by
  have hrun : ((Machine.run refsStep ShortGop mppEncRefsInit refreshOps).any fun p =>
      0 < p.cpb.frmIdx && (mppEncRefsGetCpb p default).any fun s =>
        mppEncRefsNextFrmIsIntra p && !s.2.curr.isIntra) = true := by
    decide
  obtain ⟨p, hp, hv⟩ := (Option.any_eq_true _ _).1 hrun
  simp only [Bool.and_eq_true, decide_eq_true_eq] at hv
  obtain ⟨⟨p', st'⟩, hget, hne⟩ := (Option.any_eq_true _ _).1 hv.2
  simp only [Bool.and_eq_true, Bool.not_eq_true'] at hne
  have hreach := (Machine.Reachable.run (.init rfl) hp).of_guarded
  refine ⟨p, p', st', hreach, hv.1, hget, ?_⟩
  rw [hne.1, hne.2]
  simp

/-- Outside a refresh the prediction is right: here for the first frame of the next
    gop. -/
theorem nextFrmIsIntra_iff_gop :
    ∃ p p' st', mppEncRefsGetCpb p default = some (p', st') ∧ GopEnd p ∧
      (mppEncRefsNextFrmIsIntra p ↔ st'.curr.isIntra) := by
  have hrun : ((Machine.run refsStep ShortGop mppEncRefsInit
      [.setCfg none, .setRcIgop 1, .getCpb default]).any fun p =>
        (0 < p.cpb.frmIdx && decide (GopEnd p) && p.refreshLength == 0) &&
          (mppEncRefsGetCpb p default).isSome) = true := by
    decide
  obtain ⟨p, hp, hv⟩ := (Option.any_eq_true _ _).1 hrun
  simp only [Bool.and_eq_true, decide_eq_true_eq, beq_iff_eq] at hv
  obtain ⟨⟨⟨hfrm, hend⟩, hr⟩, hsome⟩ := hv
  obtain ⟨⟨p', st'⟩, hget⟩ := Option.isSome_iff_exists.1 hsome
  have hreach := (Machine.Reachable.run (.init rfl) hp).of_guarded
  exact ⟨p, p', st', hget, hend, (nextFrmIsIntra_iff hreach hfrm hget).2 fun h => h.2.1 hr⟩

end Libmpp.EncRef
