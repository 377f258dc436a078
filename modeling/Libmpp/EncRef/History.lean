import Libmpp.EncRef.Invariant

/-!
# What the buffer keeps of the frames sent

The virtual cpb depends on nothing but the frames that were sent since it was cleared, by a
restart or by a configuration that does not keep it: of the short-term ones it has the newest
`maxCpbStFrm`, and for each index the last long-term frame with it. A rollback goes back to the
frames sent before the stash.
-/

namespace Libmpp.EncRef

open List Option

/-- The frames sent since the buffer was cleared, the newest first, and those that were sent
    when it was stashed. -/
structure Sent where
  frms : List EncFrmStatus := []
  stash : List EncFrmStatus := []

/-- The frames sent once the manager `p` has been called. -/
def Sent.next (p : MppEncRefsImpl) (s : Sent) : RefsOp → Sent
  | .setCfg refCfg => if (refCfg.getD mppEncRefDefault).keepCpb then s else { s with frms := [] }
  | .stash => { s with stash := s.frms }
  | .rollback => { s with frms := s.stash }
  | .getCpb status => (mppEncRefsGetCpb p status).elim s fun r =>
    { s with frms := r.2.curr :: if Restarts p then [] else s.frms }
  | _ => s

/-- A call of the manager, with the frames it has sent. -/
def sentStep (s : MppEncRefsImpl × Sent) (op : RefsOp) : Option (MppEncRefsImpl × Sent) :=
  (refsStep s.1 op).map fun p => (p, s.2.next s.1 op)

def sentMachine : Machine (MppEncRefsImpl × Sent) RefsOp := .ofPartial (mppEncRefsInit, {}) sentStep

/-- The buffer has the last short-term frames, and the last long-term frame of each index. -/
structure KeepsSent (cpb : EncVirtualCpb) (frms : List EncFrmStatus) : Prop where
  st : ∀ i, cpb.stRef i = (frms.filter fun f => !f.isNonRef && !f.isLtRef)[i.val]?.getD 0
  lt : ∀ k, cpb.ltIdxRefs.get k =
    (frms.find? fun f => !f.isNonRef && f.isLtRef && f.ltIdx = k).getD 0

/-- The store of frames sent one after the other. -/
def sentStore (frms : List EncFrmStatus) : RefStore EncFrmStatus := frms.foldr storeFrm .empty

theorem st_sentStore (frms : List EncFrmStatus) : (sentStore frms).st =
    (frms.filter fun f => !f.isNonRef && !f.isLtRef).take maxCpbStFrm := by
  induction frms with
  | nil => rfl
  | cons f frms ih =>
    change (storeFrm f (sentStore frms)).st = _
    rw [storeFrm]
    split_ifs with hn hl
    · simpa [hn] using ih
    · simpa [hn, hl, RefStore.putLt] using ih
    · rw [RefStore.pushSt, ih, filter_cons_of_pos (by simp [hn, hl])]
      simp [maxCpbStFrm, take_take]

theorem find?_sentStore (frms : List EncFrmStatus) (k : Fin 16) :
    ((sentStore frms).lt.find? fun f => f.ltIdx = k) =
      frms.find? fun f => !f.isNonRef && f.isLtRef && f.ltIdx = k := by
  induction frms with
  | nil => rfl
  | cons f frms ih =>
    change ((storeFrm f (sentStore frms)).lt.find? _) = _
    rw [storeFrm]
    split_ifs with hn hl
    · simpa [hn] using ih
    · rw [RefStore.putLt]
      by_cases hk : k = f.ltIdx
      · subst hk
        rw [RefStore.find?_putKey_self, find?_cons_of_pos (by simp [hn, hl])]
      · rw [RefStore.find?_putKey_of_ne hk, find?_cons_of_neg (by simp [Ne.symm hk])]
        exact ih
    · simpa [hl, RefStore.pushSt] using ih

theorem HoldsStore.keeps {cpb : EncVirtualCpb} {frms : List EncFrmStatus}
    (h : HoldsStore cpb (sentStore frms)) : KeepsSent cpb frms where
  st i := by rw [h.stRef, st_sentStore, getElem?_take_of_lt i.isLt]
  lt k := by rw [h.ltIdxRefs, find?_sentStore]

/-- A call keeps the buffer and the stashed one holding what was sent. -/
theorem holdsSent_step {p p' : MppEncRefsImpl} {s : Sent} {op : RefsOp}
    (h : HoldsStore p.cpb (sentStore s.frms) ∧ HoldsStore p.cpbStash (sentStore s.stash))
    (hstep : refsStep p op = some p') :
    HoldsStore p'.cpb (sentStore (s.next p op).frms) ∧
      HoldsStore p'.cpbStash (sentStore (s.next p op).stash) := by
  cases op with
  | setCfg refCfg =>
    change mppEncRefsSetCfg p refCfg = some p' at hstep
    unfold mppEncRefsSetCfg at hstep
    dsimp only at hstep
    rw [Sent.next]
    split_ifs at hstep ⊢
    all_goals obtain rfl := some.inj hstep
    · exact ⟨h.1.congr rfl rfl rfl, h.2⟩
    · exact ⟨holdsStore_zero.congr rfl rfl rfl, h.2⟩
  | setUsrCfg cfg =>
    obtain rfl := some.inj hstep
    exact h
  | setRcIgop igop =>
    obtain rfl := some.inj hstep
    unfold mppEncRefsSetRcIgop
    split_ifs <;> exact h
  | setRefreshLength len =>
    obtain rfl := some.inj hstep
    unfold mppEncRefsSetRefreshLength
    split_ifs <;> exact h
  | forceRecon forceRecon =>
    obtain rfl := some.inj hstep
    exact h
  | stash =>
    obtain rfl := some.inj hstep
    exact ⟨h.1, h.1⟩
  | rollback =>
    obtain rfl := some.inj hstep
    exact ⟨h.2, h.2⟩
  | getCpb status =>
    obtain ⟨⟨p', st'⟩, hget, rfl⟩ := map_eq_some_iff.1 hstep
    obtain ⟨p₁, frm, ref, hframe⟩ := mppEncRefsGetCpb_spec hget
    rw [Sent.next, hget, elim_some, hframe.cpbStash]
    refine ⟨?_, h.2⟩
    have hstart : startStore p (sentStore s.frms) =
        sentStore (if Restarts p then [] else s.frms) := by
      rw [startStore]
      split_ifs <;> rfl
    have hstored := hframe.holdsStore h.1
    rwa [hstart] at hstored
  | getCpbPass1 status =>
    obtain ⟨⟨p', st'⟩, hget, rfl⟩ := map_eq_some_iff.1 hstep
    obtain ⟨refr, rfl⟩ := mppEncRefsGetCpbPass1_spec hget
    exact ⟨h.1.congr rfl rfl rfl, h.2⟩

/-- Whatever the manager was called with, its buffer and the stashed one keep what was sent. -/
theorem reachable_keeps {s : MppEncRefsImpl × Sent} (h : sentMachine.Reachable s) :
    KeepsSent s.1.cpb s.2.frms ∧ KeepsSent s.1.cpbStash s.2.stash := by
  have hholds : HoldsStore s.1.cpb (sentStore s.2.frms) ∧
      HoldsStore s.1.cpbStash (sentStore s.2.stash) := by
    refine Machine.Reachable.invariant (P := fun s => HoldsStore s.1.cpb (sentStore s.2.frms) ∧
      HoldsStore s.1.cpbStash (sentStore s.2.stash)) ?_ ?_ h
    · rintro _ rfl
      exact ⟨holdsStore_zero, holdsStore_zero⟩
    · rintro s op s' - hs hstep
      obtain ⟨p, hp, rfl⟩ := map_eq_some_iff.1 hstep
      exact holdsSent_step hs hp
  exact ⟨hholds.1.keeps, hholds.2.keeps⟩

/-- A short-term and a long-term frame that were sent. -/
theorem reachable_keeps_ops : ∃ s : MppEncRefsImpl × Sent, s.2.frms.length = 2 ∧
    KeepsSent s.1.cpb s.2.frms ∧ KeepsSent s.1.cpbStash s.2.stash := by
  have hrun : ((Machine.run sentStep (fun _ _ _ => True) (mppEncRefsInit, {}) cpbInvOps).any
      fun s => s.2.frms.length = 2) = true := by
    decide
  obtain ⟨s, hs, hlen⟩ := (any_eq_true _ _).1 hrun
  exact ⟨s, of_decide_eq_true hlen,
    reachable_keeps (Machine.Reachable.run (.init rfl) hs).of_guarded⟩

end Libmpp.EncRef
